import IoxCore.ReadBuffer.FixedNull
import Mathlib.Data.List.Chain

/-!
# Row ids that match a predicate

`read_buffer/src/column/encoding/scalar/fixed_null.rs`. `row_ids_equal`, `row_ids_cmp_order`,
`row_ids_cmp_range_order` and `all_non_null_row_ids` scan the rows in order, count the current run
of matching rows, and add each run to the `RowIDs` as one range: at the first row after it, or
after the loop for a run that reaches the last row. The four loops differ only in the test of a
row, so the model has one scan, `scanRowIds`, and each function applies it to its own test.
`all_non_null_row_ids` writes the test as a nested `if`, and has a fast path for an array without
NULLs, which the others lack.

`RowIDs` and `cmp::Operator` are not in the source tree. `RowIDs` is read as the ranges
`add_range(a, b)` receives, each the half-open range `a..b`, in order; `rowsOf` expands them.
Against the per-row filters, `ExactRanges` says that the ranges hold exactly the matching rows, in
ascending order and each once.

`row_ids_filter` and `row_ids_filter_range` encode their operands with the transcoder, which is not
in the source tree either and is a parameter, and dispatch to the scans; `Operator.holds` says what
each operator asks of a row's value.
-/

namespace IoxCore.ReadBuffer

/-- The rows that the ranges added hold, range by range. -/
def rowsOf (ranges : List (Nat × Nat)) : List Nat :=
  ranges.flatMap fun r => List.range' r.1 (r.2 - r.1)

@[simp] theorem rowsOf_nil : rowsOf [] = [] := rfl

@[simp] theorem rowsOf_append (rs rs' : List (Nat × Nat)) :
    rowsOf (rs ++ rs') = rowsOf rs ++ rowsOf rs' :=
  List.flatMap_append _ _ _

@[simp] theorem rowsOf_singleton (lo hi : Nat) : rowsOf [(lo, hi)] = List.range' lo (hi - lo) := by
  simp [rowsOf]

/-- `ranges` adds exactly the rows below `numRows` that `keep` accepts, in ascending order, each
once: its ranges are ascending and disjoint, and expand to the per-row filter. -/
structure ExactRanges (ranges : List (Nat × Nat)) (numRows : Nat) (keep : Nat → Bool) : Prop where
  rows_eq : rowsOf ranges = (List.range numRows).filter keep
  ascending : ranges.Chain' fun r s => r.2 < s.1
  lo_le_hi : ∀ r ∈ ranges, r.1 ≤ r.2

/-! ## The scan -/

/-- The state of a scan: whether a run of matching rows is open, its length, and the ranges added
so far. -/
structure ScanState where
  found : Bool
  count : Nat
  ranges : List (Nat × Nat)

/-- One turn of the loop, over row `i`: a row that does not match closes the open run, if any,
with the range `i - count..i`; a matching row extends the run. -/
def scanStep (keep : Nat → Bool) (st : ScanState) (i : Nat) : ScanState :=
  if !keep i && st.found then ⟨false, 0, st.ranges ++ [(i - st.count, i)]⟩
  else if !keep i then st
  else ⟨true, st.count + 1, st.ranges⟩

/-- The loop over `0..num_rows`, then the range `num_rows - count..num_rows` of a run still open. -/
def scanRowIds (numRows : Nat) (keep : Nat → Bool) : List (Nat × Nat) :=
  let st := (List.range numRows).foldl (scanStep keep) ⟨false, 0, []⟩
  if st.found then st.ranges ++ [(numRows - st.count, numRows)] else st.ranges

/-- What the loop keeps after rows `0..i`: the ranges added, then the open run, expand to the
matching rows so far; a run is open exactly when it has a row; the ranges are non-empty, ascending
and disjoint, and end before the open run starts. -/
structure ScanInv (keep : Nat → Bool) (i : Nat) (st : ScanState) : Prop where
  rows : rowsOf st.ranges ++ List.range' (i - st.count) st.count = (List.range i).filter keep
  found_iff : st.found = true ↔ 0 < st.count
  count_le : st.count ≤ i
  ascending : st.ranges.Chain' fun r s => r.2 < s.1
  nonempty : ∀ r ∈ st.ranges, r.1 < r.2
  before : ∀ r ∈ st.ranges, r.2 < i - st.count

/-- A range that starts after every range added keeps them ascending. -/
theorem ascending_append {ranges : List (Nat × Nat)} (h : ranges.Chain' fun r s => r.2 < s.1)
    {lo hi : Nat} (hbefore : ∀ r ∈ ranges, r.2 < lo) :
    (ranges ++ [(lo, hi)]).Chain' fun r s => r.2 < s.1 :=
  List.chain'_append.mpr ⟨h, List.chain'_singleton _, fun x hx y hy => by
    obtain rfl : y = (lo, hi) := by simpa using hy.symm
    exact hbefore x (List.mem_of_mem_getLast? hx)⟩

theorem scanInv_init (keep : Nat → Bool) : ScanInv keep 0 ⟨false, 0, []⟩ :=
  ⟨rfl, by simp, le_rfl, List.chain'_nil, (fun _ h => nomatch h), fun _ h => nomatch h⟩

/-- Closing the open run at row `i` turns it into a last range, which ends at `i`. -/
theorem ScanInv.close {keep : Nat → Bool} {i : Nat} {st : ScanState} (h : ScanInv keep i st)
    (hf : st.found = true) :
    rowsOf (st.ranges ++ [(i - st.count, i)]) = (List.range i).filter keep ∧
      (st.ranges ++ [(i - st.count, i)]).Chain' (fun r s => r.2 < s.1) ∧
      ∀ r ∈ st.ranges ++ [(i - st.count, i)], r.1 < r.2 ∧ r.2 ≤ i := by
  have hpos := h.found_iff.mp hf
  have hc := h.count_le
  refine ⟨?_, ascending_append h.ascending h.before, fun r hr => ?_⟩
  · rw [rowsOf_append, rowsOf_singleton, ← h.rows]
    congr 2
    omega
  · rcases List.mem_append.mp hr with hr | hr
    · have := h.before r hr
      exact ⟨h.nonempty r hr, by omega⟩
    · obtain rfl := List.mem_singleton.mp hr
      exact ⟨by dsimp only; omega, le_rfl⟩

theorem scanInv_step {keep : Nat → Bool} {i : Nat} {st : ScanState} (h : ScanInv keep i st) :
    ScanInv keep (i + 1) (scanStep keep st i) := by
  have hc := h.count_le
  have hrows : (List.range (i + 1)).filter keep =
      (List.range i).filter keep ++ if keep i then [i] else [] := by
    rw [List.range_succ, List.filter_append]
    cases hk : keep i <;> simp [hk]
  have hbefore : ∀ r ∈ st.ranges, r.2 < i + 1 - (st.count + 1) := fun r hr => by
    have := h.before r hr
    omega
  unfold scanStep
  cases hk : keep i <;> cases hf : st.found
  · -- no match, no open run
    have h0 : st.count = 0 := by simpa [hf] using h.found_iff
    simp only [Bool.not_false, hf, Bool.and_false, ite_false, Bool.false_eq_true, ite_true]
    refine ⟨?_, h.found_iff, by omega, h.ascending, h.nonempty, fun r hr => ?_⟩
    · rw [hrows, hk, ← h.rows, h0]
      simp
    · have := hbefore r hr
      omega
  · -- no match closes the open run
    obtain ⟨hclosed, hascending, hbound⟩ := h.close hf
    simp only [Bool.not_false, hf, Bool.and_self, ite_true]
    refine ⟨?_, by simp, Nat.zero_le _, hascending, fun r hr => (hbound r hr).1, fun r hr => ?_⟩
    · rw [hrows, hk, ← hclosed]
      simp
    · have := (hbound r hr).2
      dsimp only
      omega
  · -- a match opens a run
    have h0 : st.count = 0 := by simpa [hf] using h.found_iff
    simp only [Bool.not_true, Bool.false_and, ite_false, Bool.false_eq_true]
    refine ⟨?_, by simp, by dsimp only; omega, h.ascending, h.nonempty, hbefore⟩
    rw [hrows, hk, ← h.rows, h0]
    simp
  · -- a match extends the open run
    simp only [Bool.not_true, Bool.false_and, ite_false, Bool.false_eq_true]
    refine ⟨?_, by simp, by dsimp only; omega, h.ascending, h.nonempty, hbefore⟩
    rw [hrows, hk, ← h.rows, List.append_assoc]
    dsimp only
    rw [show i + 1 - (st.count + 1) = i - st.count by omega, List.range'_concat]
    simp only [ite_true, Nat.one_mul]
    congr 3
    omega

theorem scanInv_range (keep : Nat → Bool) (n : Nat) :
    ScanInv keep n ((List.range n).foldl (scanStep keep) ⟨false, 0, []⟩) := by
  induction n with
  | zero => exact scanInv_init keep
  | succ n ih =>
    rw [List.range_succ, List.foldl_append, List.foldl_cons, List.foldl_nil]
    exact scanInv_step ih

/-- The scan adds exactly the matching rows, as non-empty, ascending, disjoint ranges. -/
theorem scanRowIds_exact (numRows : Nat) (keep : Nat → Bool) :
    ExactRanges (scanRowIds numRows keep) numRows keep ∧
      ∀ r ∈ scanRowIds numRows keep, r.1 < r.2 := by
  have h := scanInv_range keep numRows
  unfold scanRowIds
  generalize (List.range numRows).foldl (scanStep keep) ⟨false, 0, []⟩ = st at h ⊢
  cases hf : st.found
  · have h0 : st.count = 0 := by simpa [hf] using h.found_iff
    simp only [hf, Bool.false_eq_true, ite_false]
    refine ⟨⟨?_, h.ascending, fun r hr => (h.nonempty r hr).le⟩, h.nonempty⟩
    rw [← h.rows, h0]
    simp
  · obtain ⟨hclosed, hascending, hbound⟩ := h.close hf
    simp only [hf, ite_true]
    exact ⟨⟨hclosed, hascending, fun r hr => (hbound r hr).1.le⟩, fun r hr => (hbound r hr).1⟩

theorem ExactRanges.of_keep_eq {ranges : List (Nat × Nat)} {numRows : Nat} {keep keep' : Nat → Bool}
    (h : ExactRanges ranges numRows keep) (hkeep : ∀ i, keep i = keep' i) :
    ExactRanges ranges numRows keep' := by
  obtain rfl : keep = keep' := funext hkeep
  exact h

/-! ## The four scans of `FixedNull` -/

/-- Modelled from the spec: `cmp::Operator`, which is not in the source tree; these are the
variants `fixed_null.rs` names. -/
inductive Operator
  | equal
  | notEqual
  | gt
  | gte
  | lt
  | lte
  deriving DecidableEq, Repr

/-- What `x op v` means: `==` for `Equal` and `NotEqual`, and the orderings of
`partial_cmp` for the others. -/
def Operator.holds {P : Type} [BEq P] (partialCmp : P → P → Option Ordering) :
    Operator → P → P → Bool
  | .equal, x, v => x == v
  | .notEqual, x, v => !(x == v)
  | .gt, x, v => partialCmp x v == some .gt
  | .gte, x, v => partialCmp x v == some .gt || partialCmp x v == some .eq
  | .lt, x, v => partialCmp x v == some .lt
  | .lte, x, v => partialCmp x v == some .lt || partialCmp x v == some .eq

namespace FixedNull

variable {P L : Type}

/-- `row_ids_equal`: the rows that are not NULL and whose `==` with `value` is what `op` asks for,
`true` for `Equal` and `false` for any other operator. -/
def rowIdsEqual [Inhabited P] [BEq P] (c : FixedNull P L) (value : P) (op : Operator) :
    List (Nat × Nat) :=
  let desired := op == .equal
  scanRowIds c.numRows fun i => !(c.arrIsNull i || (c.arrValue i == value) != desired)

/-- `row_ids_cmp_order`, with `P::Native`'s `partial_cmp`: the rows that are not NULL and whose
comparison with `value` is one of the two orderings of `op`. -/
def rowIdsCmpOrder [Inhabited P] (c : FixedNull P L) (partialCmp : P → P → Option Ordering)
    (value : P) (op : Ordering × Ordering) : List (Nat × Nat) :=
  scanRowIds c.numRows fun i =>
    let cmpResult := partialCmp (c.arrValue i) value
    !(c.arrIsNull i || (cmpResult != some op.1 && cmpResult != some op.2))

/-- `row_ids_cmp_range_order`: the rows that satisfy both bounds. -/
def rowIdsCmpRangeOrder [Inhabited P] (c : FixedNull P L) (partialCmp : P → P → Option Ordering)
    (left right : P × (Ordering × Ordering)) : List (Nat × Nat) :=
  scanRowIds c.numRows fun i =>
    let leftCmpResult := partialCmp (c.arrValue i) left.1
    let rightCmpResult := partialCmp (c.arrValue i) right.1
    let leftResultNo := leftCmpResult != some left.2.1 && leftCmpResult != some left.2.2
    let rightResultNo := rightCmpResult != some right.2.1 && rightCmpResult != some right.2.2
    !(c.arrIsNull i || leftResultNo || rightResultNo)

/-- `all_non_null_row_ids`: one range of every row when the array has no NULL, else the scan for
the rows that are not NULL. -/
def allNonNullRowIds (c : FixedNull P L) : List (Nat × Nat) :=
  if c.nullCount = 0 then [(0, c.numRows)] else scanRowIds c.numRows fun i => !c.arrIsNull i

/-- The per-row filter of one bound: row `i` is not NULL and its value compares to `value` with
one of the orderings of `op`. -/
def cmpMatches [Inhabited P] (c : FixedNull P L) (partialCmp : P → P → Option Ordering) (value : P)
    (op : Ordering × Ordering) (i : Nat) : Bool :=
  !c.arrIsNull i &&
    (partialCmp (c.arrValue i) value == some op.1 || partialCmp (c.arrValue i) value == some op.2)

/-- The fast path of `all_non_null_row_ids` adds every row, all of them non-NULL. -/
theorem allNonNullRowIds_exact (c : FixedNull P L) :
    ExactRanges c.allNonNullRowIds c.numRows fun i => !c.arrIsNull i := by
  unfold allNonNullRowIds
  split_ifs with h
  · refine ⟨?_, List.chain'_singleton _, by simp⟩
    rw [rowsOf_singleton, Nat.sub_zero, ← List.range_eq_range']
    exact (nonNullRows_of_nullCount c h _).symm
  · exact (scanRowIds_exact _ _).1

theorem rowIdsCmpOrder_exact [Inhabited P] (c : FixedNull P L)
    (partialCmp : P → P → Option Ordering) (value : P) (op : Ordering × Ordering) :
    ExactRanges (c.rowIdsCmpOrder partialCmp value op) c.numRows
      (c.cmpMatches partialCmp value op) :=
  (scanRowIds_exact _ _).1.of_keep_eq fun i => by simp [cmpMatches, bne]

theorem rowIdsEqual_exact [Inhabited P] [BEq P] (c : FixedNull P L) (value : P) (op : Operator) :
    ExactRanges (c.rowIdsEqual value op) c.numRows
      fun i => !c.arrIsNull i && (c.arrValue i == value) == (op == .equal) :=
  (scanRowIds_exact _ _).1.of_keep_eq fun i => by
    cases c.arrIsNull i <;> cases c.arrValue i == value <;> cases op == .equal <;> rfl

theorem rowIdsCmpRangeOrder_exact [Inhabited P] (c : FixedNull P L)
    (partialCmp : P → P → Option Ordering) (left right : P × (Ordering × Ordering)) :
    ExactRanges (c.rowIdsCmpRangeOrder partialCmp left right) c.numRows
      fun i => c.cmpMatches partialCmp left.1 left.2 i && c.cmpMatches partialCmp right.1 right.2 i :=
  (scanRowIds_exact _ _).1.of_keep_eq fun i => by
    cases h : c.arrIsNull i <;> simp [cmpMatches, bne, h, Bool.or_assoc]

/-- Each scan of `FixedNull` adds exactly the rows of its per-row filter, in disjoint ranges in
ascending order: `row_ids_cmp_order` the non-NULL rows whose comparison with the value is one of
the operator's orderings, `row_ids_equal` the non-NULL rows whose equality with the value is what
`Equal` or `NotEqual` asks for, `row_ids_cmp_range_order` the rows that both bounds accept, and
`all_non_null_row_ids` the non-NULL rows. -/
theorem rowIds_scans_eq_filters [Inhabited P] [BEq P] (c : FixedNull P L)
    (partialCmp : P → P → Option Ordering) (value : P) :
    (∀ op, ExactRanges (c.rowIdsCmpOrder partialCmp value op) c.numRows
      (c.cmpMatches partialCmp value op)) ∧
    ExactRanges (c.rowIdsEqual value .equal) c.numRows
      (fun i => !c.arrIsNull i && c.arrValue i == value) ∧
    ExactRanges (c.rowIdsEqual value .notEqual) c.numRows
      (fun i => !c.arrIsNull i && !(c.arrValue i == value)) ∧
    (∀ left right, ExactRanges (c.rowIdsCmpRangeOrder partialCmp left right) c.numRows
      fun i => c.cmpMatches partialCmp left.1 left.2 i && c.cmpMatches partialCmp right.1 right.2 i) ∧
    ExactRanges c.allNonNullRowIds c.numRows fun i => !c.arrIsNull i := by
  refine ⟨rowIdsCmpOrder_exact c partialCmp value,
    (rowIdsEqual_exact c value .equal).of_keep_eq fun i => ?_,
    (rowIdsEqual_exact c value .notEqual).of_keep_eq fun i => ?_,
    rowIdsCmpRangeOrder_exact c partialCmp, allNonNullRowIds_exact c⟩
  · cases c.arrIsNull i <;> cases c.arrValue i == value <;> rfl
  · cases c.arrIsNull i <;> cases c.arrValue i == value <;> rfl

/-! ## The filters -/

/-- `ord_from_op`: the orderings of `partial_cmp` that a comparison operator accepts; `none`
where it panics. -/
def ordFromOp : Operator → Option (Ordering × Ordering)
  | .gt => some (.gt, .gt)
  | .gte => some (.gt, .eq)
  | .lt => some (.lt, .lt)
  | .lte => some (.lt, .eq)
  | _ => none

/-- `row_ids_filter`, with the transcoder's `encode_comparable`, which is not in the source
tree: it maps a logical value and operator to a physical value and operator, or fails on a value it
cannot encode. `none` where the function panics. -/
def rowIdsFilter [Inhabited P] [BEq P] (c : FixedNull P L)
    (encodeComparable : L → Operator → Option (P × Operator))
    (partialCmp : P → P → Option Ordering) (value : L) (op : Operator) :
    Option (List (Nat × Nat)) :=
  match encodeComparable value op with
  | none =>
    match op with
    | .equal => some []
    | .notEqual => some c.allNonNullRowIds
    | _ => none
  | some (value, op) =>
    match op with
    | .gt | .gte | .lt | .lte => (ordFromOp op).map (c.rowIdsCmpOrder partialCmp value)
    | _ => some (c.rowIdsEqual value op)

/-- `row_ids_filter_range`, with the transcoder's `encode_comparable`; `none` where it
panics: on a bound the transcoder cannot encode, and on operators that are not a lower and an
upper bound. -/
def rowIdsFilterRange [Inhabited P] (c : FixedNull P L)
    (encodeComparable : L → Operator → Option (P × Operator))
    (partialCmp : P → P → Option Ordering) (left right : L × Operator) :
    Option (List (Nat × Nat)) := do
  let left ← encodeComparable left.1 left.2
  let right ← encodeComparable right.1 right.2
  match left.2, right.2 with
  | .gt, .lt | .gt, .lte | .gte, .lt | .gte, .lte
  | .lt, .gt | .lt, .gte | .lte, .gt | .lte, .gte => do
    let leftOrd ← ordFromOp left.2
    let rightOrd ← ordFromOp right.2
    pure (c.rowIdsCmpRangeOrder partialCmp (left.1, leftOrd) (right.1, rightOrd))
  | _, _ => none

/-- For a value the transcoder encodes, `row_ids_filter` returns exactly the non-NULL rows whose
physical value satisfies the encoded comparison. -/
theorem rowIdsFilter_exact [Inhabited P] [BEq P] (c : FixedNull P L)
    (encodeComparable : L → Operator → Option (P × Operator))
    (partialCmp : P → P → Option Ordering) {value : L} {op : Operator} {v : P} {op' : Operator}
    (henc : encodeComparable value op = some (v, op')) :
    ∃ ranges, c.rowIdsFilter encodeComparable partialCmp value op = some ranges ∧
      ExactRanges ranges c.numRows fun i => !c.arrIsNull i && op'.holds partialCmp (c.arrValue i) v := by
  unfold rowIdsFilter
  rw [henc]
  cases op'
  case equal | notEqual =>
    exact ⟨_, rfl, (rowIdsEqual_exact c v _).of_keep_eq fun i => by
      simp only [Operator.holds]
      cases c.arrIsNull i <;> cases c.arrValue i == v <;> rfl⟩
  all_goals exact ⟨_, rfl, (rowIdsCmpOrder_exact c partialCmp v _).of_keep_eq fun i => by
    simp [cmpMatches, Operator.holds]⟩

/-- A column of three rows, the second of them `NULL`. -/
def threeRows : FixedNull Nat Nat := ⟨[1, 2, 3], [true, false, true], id, rfl⟩

/-- The transcoder of `threeRows`, which encodes every value as itself. -/
def encodeNat (v : Nat) (op : Operator) : Option (Nat × Operator) := some (v, op)

/-- The order of the physical values of `threeRows`. -/
def cmpNat (a b : Nat) : Option Ordering := some (compare a b)

theorem rowIdsFilter_threeRows_gt :
    ∃ ranges, threeRows.rowIdsFilter encodeNat cmpNat 2 .gt = some ranges ∧
      ExactRanges ranges threeRows.numRows fun i =>
        !threeRows.arrIsNull i && Operator.gt.holds cmpNat (threeRows.arrValue i) 2 :=
  rowIdsFilter_exact threeRows encodeNat cmpNat rfl

/-- For a value the transcoder cannot encode, `row_ids_filter` returns no row for `Equal` and
every non-NULL row for `NotEqual`, and panics for any other operator. -/
theorem rowIdsFilter_unencodable [Inhabited P] [BEq P] (c : FixedNull P L)
    (encodeComparable : L → Operator → Option (P × Operator))
    (partialCmp : P → P → Option Ordering) {value : L} {op : Operator}
    (henc : encodeComparable value op = none) :
    (op = .equal → c.rowIdsFilter encodeComparable partialCmp value op = some []) ∧
    (op = .notEqual → ∃ ranges, c.rowIdsFilter encodeComparable partialCmp value op = some ranges ∧
      ExactRanges ranges c.numRows fun i => !c.arrIsNull i) ∧
    (op ≠ .equal → op ≠ .notEqual → c.rowIdsFilter encodeComparable partialCmp value op = none) := by
  unfold rowIdsFilter
  rw [henc]
  refine ⟨fun h => by subst h; rfl, fun h => by subst h; exact ⟨_, rfl, allNonNullRowIds_exact c⟩,
    fun h₁ h₂ => ?_⟩
  cases op
  case equal => exact absurd rfl h₁
  case notEqual => exact absurd rfl h₂
  all_goals rfl

theorem rowIdsFilter_threeRows_unencodable :
    (Operator.notEqual = .equal →
      threeRows.rowIdsFilter (fun _ _ => none) cmpNat 2 .notEqual = some []) ∧
    (Operator.notEqual = .notEqual → ∃ ranges,
      threeRows.rowIdsFilter (fun _ _ => none) cmpNat 2 .notEqual = some ranges ∧
        ExactRanges ranges threeRows.numRows fun i => !threeRows.arrIsNull i) ∧
    (Operator.notEqual ≠ .equal → Operator.notEqual ≠ .notEqual →
      threeRows.rowIdsFilter (fun _ _ => none) cmpNat 2 .notEqual = none) :=
  rowIdsFilter_unencodable threeRows (fun _ _ => none) cmpNat rfl

/-- With both bounds encoded to a lower and an upper bound, `row_ids_filter_range` returns
exactly the non-NULL rows whose physical value satisfies both encoded comparisons. -/
theorem rowIdsFilterRange_exact [Inhabited P] [BEq P] (c : FixedNull P L)
    (encodeComparable : L → Operator → Option (P × Operator))
    (partialCmp : P → P → Option Ordering) {left right : L × Operator} {v₁ v₂ : P}
    {op₁ op₂ : Operator} (henc₁ : encodeComparable left.1 left.2 = some (v₁, op₁))
    (henc₂ : encodeComparable right.1 right.2 = some (v₂, op₂))
    (hbounds : (op₁ ∈ [.gt, .gte] ∧ op₂ ∈ [.lt, .lte]) ∨ (op₁ ∈ [.lt, .lte] ∧ op₂ ∈ [.gt, .gte])) :
    ∃ ranges, c.rowIdsFilterRange encodeComparable partialCmp left right = some ranges ∧
      ExactRanges ranges c.numRows fun i => !c.arrIsNull i &&
        op₁.holds partialCmp (c.arrValue i) v₁ && op₂.holds partialCmp (c.arrValue i) v₂ := by
  unfold rowIdsFilterRange
  rw [henc₁, henc₂]
  simp only [List.mem_cons, List.mem_singleton, List.not_mem_nil, or_false] at hbounds
  rcases hbounds with ⟨h₁ | h₁, h₂ | h₂⟩ | ⟨h₁ | h₁, h₂ | h₂⟩ <;> subst h₁ h₂ <;>
    exact ⟨_, rfl, (rowIdsCmpRangeOrder_exact c partialCmp _ _).of_keep_eq fun i => by
      cases h : c.arrIsNull i <;> simp [cmpMatches, Operator.holds, h]⟩

theorem rowIdsFilterRange_threeRows :
    ∃ ranges, threeRows.rowIdsFilterRange encodeNat cmpNat (1, .gt) (3, .lte) = some ranges ∧
      ExactRanges ranges threeRows.numRows fun i => !threeRows.arrIsNull i &&
        Operator.gt.holds cmpNat (threeRows.arrValue i) 1 &&
          Operator.lte.holds cmpNat (threeRows.arrValue i) 3 :=
  rowIdsFilterRange_exact threeRows encodeNat cmpNat rfl rfl (by decide)

end FixedNull

end IoxCore.ReadBuffer
