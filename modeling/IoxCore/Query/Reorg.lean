import Mathlib.Data.List.Chain
import Mathlib.Data.List.Sort

/-!
# Splitting a table by time

`iox_query/src/frontend/reorg.rs` and `exec.rs`. `ReorgPlanner::split_plan` builds one predicate on
the `time` column per split time, and `make_stream_split` routes each row of the scan to the first
stream whose predicate is true, or to an extra last stream if none is. For split times
`s₀ < … < sₙ₋₁` the predicates are `time ≤ s₀` and `sᵢ₋₁ < time ≤ sᵢ`.

The `StreamSplit` operator that does the routing is not in the source tree; `route` follows the
documentation of `make_stream_split`. The predicates are evaluated as DataFusion evaluates them: a
comparison with NULL is NULL, and `AND` is three-valued. The scan plan and the plan builder are
DataFusion's too, so their results are parameters of `splitPlan`.
-/

namespace IoxCore.Query

/-- The predicates `split_plan` builds, on the `time` column. -/
inductive SplitExpr
  /-- `col("time").lt_eq(lit_timestamp_nano(t))` -/
  | ltEq (t : Int)
  /-- `col("time").gt(lit_timestamp_nano(t))` -/
  | gt (t : Int)
  /-- `a.and(b)` -/
  | and (a b : SplitExpr)
  deriving DecidableEq, Repr

/-- SQL's three-valued `AND`, with `none` for NULL. -/
def kleeneAnd : Option Bool → Option Bool → Option Bool
  | some false, _ => some false
  | _, some false => some false
  | some true, some true => some true
  | _, _ => none

/-- The value of a predicate on a row whose time is `time` (`none` for NULL). -/
def SplitExpr.eval : SplitExpr → Option Int → Option Bool
  | .ltEq t, time => time.map fun v => decide (v ≤ t)
  | .gt t, time => time.map fun v => decide (t < v)
  | .and a b, time => kleeneAnd (a.eval time) (b.eval time)

/-- `StreamSplitNode`: the input plan and its split predicates. -/
structure StreamSplitNode (P : Type) where
  input : P
  splitExprs : List SplitExpr

/-- `make_stream_split`. Qualifying the column with the input's schema leaves a predicate's value
unchanged. -/
def makeStreamSplit {P : Type} (input : P) (splitExprs : List SplitExpr) : StreamSplitNode P :=
  ⟨input, splitExprs⟩

/-- Modelled from the spec: the stream a row goes to, as the documentation of
`make_stream_split` states it: the first predicate that is true, or the last stream, numbered
`splitExprs.length`, if none is. -/
def route : List SplitExpr → Option Int → Nat
  | [], _ => 0
  | e :: es, time => if e.eval time = some true then 0 else route es time + 1

/-- The errors of `split_plan`, with the DataFusion and scan-builder errors as `E`. -/
inductive ReorgError (E : Type)
  | buildingPlan (source : E)
  | buildingScan (source : E)

/-- The loop of `split_plan` over `1..split_times.len()`, from the previous split time `prev`:
`none` where it panics on split times that do not ascend strictly. -/
def splitExprsFrom (prev : Int) : List Int → Option (List SplitExpr)
  | [] => some []
  | t :: ts => if prev ≥ t then none else (splitExprsFrom t ts).map (.and (.gt prev) (.ltEq t) :: ·)

/-- `ReorgPlanner::split_plan`: `none` where it panics. -/
def splitPlan {E S P : Type} (scanPlan : Except E S) (buildPlan : S → Except E P)
    (splitTimes : List Int) : Option (Except (ReorgError E) (StreamSplitNode P)) :=
  match splitTimes with
  | [] => none
  | t :: ts =>
    match scanPlan with
    | .error e => some (.error (.buildingScan e))
    | .ok scan => (splitExprsFrom t ts).map fun rest =>
      match buildPlan scan with
      | .error e => .error (.buildingPlan e)
      | .ok plan => .ok (makeStreamSplit plan (.ltEq t :: rest))

/-! ## The predicates -/

theorem kleeneAnd_eq_some_true {a b : Option Bool} :
    kleeneAnd a b = some true ↔ a = some true ∧ b = some true := by
  rcases a with _ | _ | _ <;> rcases b with _ | _ | _ <;> simp [kleeneAnd]

/-- On a NULL time every predicate is NULL. -/
@[simp] theorem SplitExpr.eval_none (e : SplitExpr) : e.eval none = none := by
  induction e with
  | ltEq t => rfl
  | gt t => rfl
  | and a b iha ihb => simp [SplitExpr.eval, iha, ihb, kleeneAnd]

@[simp] theorem eval_ltEq_eq_some_true {s : Int} {time : Option Int} :
    (SplitExpr.ltEq s).eval time = some true ↔ ∃ t, time = some t ∧ t ≤ s := by
  cases time <;> simp [SplitExpr.eval]

@[simp] theorem eval_interval_eq_some_true {p s : Int} {time : Option Int} :
    (SplitExpr.and (.gt p) (.ltEq s)).eval time = some true ↔ ∃ t, time = some t ∧ p < t ∧ t ≤ s := by
  cases time <;> simp [SplitExpr.eval, kleeneAnd_eq_some_true]

/-! ## The loop -/

/-- The loop panics exactly on split times that do not ascend strictly. -/
theorem splitExprsFrom_eq_none_iff (prev : Int) (ts : List Int) :
    splitExprsFrom prev ts = none ↔ ¬ List.Chain (· < ·) prev ts := by
  induction ts generalizing prev with
  | nil => simp [splitExprsFrom]
  | cons t ts ih =>
    by_cases h : prev < t
    · simp [splitExprsFrom, not_le.mpr h, ih, h]
    · simp [splitExprsFrom, not_lt.mp h, h]

/-- Where the loop returns, the split times ascend strictly from `prev`. -/
theorem chain_of_splitExprsFrom {prev : Int} {ts : List Int} {rest : List SplitExpr}
    (h : splitExprsFrom prev ts = some rest) : List.Chain (· < ·) prev ts :=
  not_not.mp ((splitExprsFrom_eq_none_iff prev ts).not.mp (by simp [h]))

theorem length_splitExprsFrom {prev : Int} {ts : List Int} {rest : List SplitExpr}
    (h : splitExprsFrom prev ts = some rest) : rest.length = ts.length := by
  induction ts generalizing prev rest with
  | nil => cases h; rfl
  | cons t ts ih =>
    simp only [splitExprsFrom, ge_iff_le, Option.ite_none_left_eq_some, Option.map_eq_some'] at h
    obtain ⟨-, rest', h', rfl⟩ := h
    simp [ih h']

/-- A predicate the loop builds holds only for times above the split time it starts from. -/
theorem lt_of_mem_splitExprsFrom {prev : Int} {ts : List Int} {rest : List SplitExpr}
    (h : splitExprsFrom prev ts = some rest) {e : SplitExpr} (he : e ∈ rest) {time : Option Int}
    (htrue : e.eval time = some true) : ∃ t, time = some t ∧ prev < t := by
  induction ts generalizing prev rest with
  | nil => cases h; cases he
  | cons s ts ih =>
    simp only [splitExprsFrom, ge_iff_le, Option.ite_none_left_eq_some, Option.map_eq_some'] at h
    obtain ⟨hlt, rest', h', rfl⟩ := h
    rcases List.mem_cons.mp he with rfl | he
    · obtain ⟨t, rfl, hpt, -⟩ := eval_interval_eq_some_true.mp htrue
      exact ⟨t, rfl, hpt⟩
    · obtain ⟨t, rfl, hst⟩ := ih h' he
      exact ⟨t, rfl, (not_le.mp hlt).trans hst⟩

/-- The predicates the loop builds never hold together. -/
theorem pairwise_disjoint_splitExprsFrom {prev : Int} {ts : List Int} {rest : List SplitExpr}
    (h : splitExprsFrom prev ts = some rest) :
    rest.Pairwise fun a b => ∀ time, ¬ (a.eval time = some true ∧ b.eval time = some true) := by
  induction ts generalizing prev rest with
  | nil => cases h; exact .nil
  | cons s ts ih =>
    simp only [splitExprsFrom, ge_iff_le, Option.ite_none_left_eq_some, Option.map_eq_some'] at h
    obtain ⟨-, rest', h', rfl⟩ := h
    refine .cons (fun b hb time ⟨ha, hb'⟩ => ?_) (ih h')
    obtain ⟨t, rfl, -, hts⟩ := eval_interval_eq_some_true.mp ha
    obtain ⟨t', ht', hst⟩ := lt_of_mem_splitExprsFrom h' hb hb'
    cases ht'
    omega

/-- No predicate holds on a NULL time. -/
theorem route_none (es : List SplitExpr) : route es none = es.length := by
  induction es with
  | nil => rfl
  | cons e es ih => simp [route, ih]

/-- Split times at or above `t` leave no row with time `t` below them. -/
theorem filter_lt_eq_nil {s t : Int} {ts : List Int} (hts : t ≤ s) (h : ∀ x ∈ ts, s < x) :
    (s :: ts).filter (· < t) = [] :=
  List.filter_eq_nil_iff.mpr fun x hx => by
    have : s ≤ x := by
      rcases List.mem_cons.mp hx with rfl | hx
      exacts [le_rfl, (h x hx).le]
    simp only [decide_eq_true_eq, not_lt]
    omega

/-- After the previous split time, a row goes to the stream after every split time it exceeds. -/
theorem route_splitExprsFrom {prev : Int} {ts : List Int} {rest : List SplitExpr}
    (h : splitExprsFrom prev ts = some rest) {t : Int} (hprev : prev < t) :
    route rest (some t) = (ts.filter (· < t)).length := by
  induction ts generalizing prev rest with
  | nil => cases h; rfl
  | cons s ts ih =>
    simp only [splitExprsFrom, ge_iff_le, Option.ite_none_left_eq_some, Option.map_eq_some'] at h
    obtain ⟨-, rest', h', rfl⟩ := h
    have hchain := List.pairwise_cons.mp (List.chain_iff_pairwise.mp (chain_of_splitExprsFrom h'))
    by_cases hts : t ≤ s
    · simp [route, hprev, hts, filter_lt_eq_nil hts hchain.1]
    · simp [route, hts, ih h' (not_le.mp hts), List.filter_cons, not_le.mp hts]

/-- With the first predicate, `time ≤ s₀`: a row goes to the stream after every split time below
its time. -/
theorem route_ltEq_cons {s : Int} {ts : List Int} {rest : List SplitExpr}
    (h : splitExprsFrom s ts = some rest) (t : Int) :
    route (.ltEq s :: rest) (some t) = ((s :: ts).filter (· < t)).length := by
  by_cases hts : t ≤ s
  · have hchain := List.pairwise_cons.mp (List.chain_iff_pairwise.mp (chain_of_splitExprsFrom h))
    simp [route, SplitExpr.eval, hts, filter_lt_eq_nil hts hchain.1]
  · simp [route, SplitExpr.eval, hts, route_splitExprsFrom h (not_le.mp hts), List.filter_cons,
      not_le.mp hts]

/-- With the first predicate, still no two predicates hold together. -/
theorem pairwise_disjoint_ltEq_cons {s : Int} {ts : List Int} {rest : List SplitExpr}
    (h : splitExprsFrom s ts = some rest) :
    (SplitExpr.ltEq s :: rest).Pairwise
      fun a b => ∀ time, ¬ (a.eval time = some true ∧ b.eval time = some true) := by
  refine .cons (fun b hb time ⟨ha, hb'⟩ => ?_) (pairwise_disjoint_splitExprsFrom h)
  obtain ⟨t, rfl, hts⟩ := eval_ltEq_eq_some_true.mp ha
  obtain ⟨t', ht', hst⟩ := lt_of_mem_splitExprsFrom h hb hb'
  cases ht'
  omega

/-! ## Strictly ascending split times -/

/-- In strictly ascending split times, exactly the first `i` are below `t` when `t` lies between
the `i`-th and the next. -/
theorem length_filter_lt_eq_iff {l : List Int} (hl : l.Pairwise (· < ·)) (t : Int) {i : Nat}
    (hi : i ≤ l.length) :
    (l.filter (· < t)).length = i ↔
      (∀ h : 0 < i, l[i - 1] < t) ∧ ∀ h : i < l.length, t ≤ l[i] := by
  induction l generalizing i with
  | nil => simp at hi; subst hi; simp
  | cons a l ih =>
    rw [List.pairwise_cons] at hl
    by_cases hat : a < t
    · simp only [List.filter_cons, hat, decide_True, ite_true, List.length_cons]
      cases i with
      | zero => simpa using hat
      | succ k =>
        simp only [List.length_cons] at hi
        rw [Nat.add_right_cancel_iff, ih hl.2 (by omega)]
        cases k with
        | zero => simp [hat]
        | succ k => simp
    · rw [filter_lt_eq_nil (not_lt.mp hat) hl.1, List.length_nil]
      cases i with
      | zero => simpa using not_lt.mp hat
      | succ k =>
        refine ⟨fun h => absurd h (by omega), fun hc => absurd (hc.1 (by omega)) ?_⟩
        cases k with
        | zero => exact hat
        | succ k => exact fun h => hat ((hl.1 _ (List.getElem_mem _)).trans h)

/-! ## The split plan -/

/-- `split_plan` panics on empty split times, and on split times that do not ascend strictly once
it has built the scan plan; given strictly ascending split times, its predicates never hold together,
and a row with time `t` goes to the stream numbered by how many split times are below `t`, that is to
stream `i` exactly when `sᵢ₋₁ < t ≤ sᵢ` (with no bound below for stream 0 and none above for the
last), while a row with a NULL time goes to the last stream. -/
theorem splitPlan_partitions_time {E S P : Type} (scanPlan : Except E S)
    (buildPlan : S → Except E P) (splitTimes : List Int) :
    (splitPlan scanPlan buildPlan splitTimes = none ↔
      splitTimes = [] ∨ (¬ splitTimes.Chain' (· < ·) ∧ ∃ scan, scanPlan = .ok scan)) ∧
    (∀ e, splitTimes ≠ [] → scanPlan = .error e →
      splitPlan scanPlan buildPlan splitTimes = some (.error (.buildingScan e))) ∧
    ∀ node, splitPlan scanPlan buildPlan splitTimes = some (.ok node) →
      node.splitExprs.length = splitTimes.length ∧
      node.splitExprs.Pairwise
        (fun a b => ∀ time, ¬ (a.eval time = some true ∧ b.eval time = some true)) ∧
      (∀ t, route node.splitExprs (some t) = (splitTimes.filter (· < t)).length) ∧
      (∀ t i (hi : i ≤ splitTimes.length), route node.splitExprs (some t) = i ↔
        (∀ h : 0 < i, splitTimes[i - 1] < t) ∧ ∀ h : i < splitTimes.length, t ≤ splitTimes[i]) ∧
      route node.splitExprs none = splitTimes.length := by
  refine ⟨?_, fun e hne hscan => ?_, fun node h => ?_⟩
  · cases splitTimes with
    | nil => simp [splitPlan]
    | cons t ts =>
      cases scanPlan with
      | error e => simp [splitPlan]
      | ok scan => simp [splitPlan, splitExprsFrom_eq_none_iff, List.Chain']
  · obtain ⟨t, ts, rfl⟩ := List.exists_cons_of_ne_nil hne
    subst hscan
    rfl
  · cases splitTimes with
    | nil => cases h
    | cons s ts =>
      cases scanPlan with
      | error e => cases h
      | ok scan =>
        simp only [splitPlan, Option.map_eq_some'] at h
        obtain ⟨rest, hrest, hnode⟩ := h
        split at hnode <;> cases hnode
        simp only [makeStreamSplit]
        refine ⟨by simp [length_splitExprsFrom hrest], pairwise_disjoint_ltEq_cons hrest,
          route_ltEq_cons hrest, fun t i hi => ?_,
          by simp [route_none, length_splitExprsFrom hrest]⟩
        rw [route_ltEq_cons hrest t]
        exact length_filter_lt_eq_iff
          (List.chain_iff_pairwise.mp (chain_of_splitExprsFrom hrest)) t hi

/-- Two split times make three streams: a time up to 1000 goes to the first, one in (1000, 7000]
to the second, and a later or NULL time to the last. -/
theorem splitPlan_partitions_time_twoSplits :
    let node : StreamSplitNode Unit := ⟨(), [.ltEq 1000, .and (.gt 1000) (.ltEq 7000)]⟩
    splitPlan (.ok () : Except Unit Unit) (fun _ => .ok ()) [1000, 7000] = some (.ok node) ∧
      node.splitExprs.length = 2 ∧
      node.splitExprs.Pairwise
        (fun a b => ∀ time, ¬ (a.eval time = some true ∧ b.eval time = some true)) ∧
      (∀ t, route node.splitExprs (some t) = ([1000, 7000].filter (· < t)).length) ∧
      route node.splitExprs none = 2 :=
  have hnode : splitPlan (.ok () : Except Unit Unit) (fun _ => .ok ()) [1000, 7000] =
      some (.ok ⟨(), [.ltEq 1000, .and (.gt 1000) (.ltEq 7000)]⟩) := rfl
  have ⟨hlen, hdisjoint, hroute, _, hnull⟩ :=
    (splitPlan_partitions_time (.ok ()) (fun _ => .ok ()) [1000, 7000]).2.2 _ hnode
  ⟨hnode, hlen, hdisjoint, hroute, hnull⟩

/-- Building the scan plan comes before the order check, so a failing scan returns its error even
on split times that do not ascend. -/
theorem splitPlan_scan_error_unsorted :
    ¬ [(2 : Int), 1].Chain' (· < ·) ∧
      splitPlan (.error () : Except Unit Unit) (fun _ => (.ok () : Except Unit Unit)) [2, 1] =
        some (.error (.buildingScan ())) :=
  ⟨by simp, rfl⟩

end IoxCore.Query
