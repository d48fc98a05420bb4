import Mathlib.Algebra.BigOperators.Group.List
import Mathlib.Data.Bool.Count
import Mathlib.Order.Basic

/-!
# The `FixedNull` encoding

`read_buffer/src/column/encoding/scalar/fixed_null.rs`. A `FixedNull` column is an Arrow array of
fixed-width physical values with a validity bitmap, and a transcoder that decodes a physical value
to the column's logical type. Its aggregates take a list of row ids: `count`, `has_non_null_value`
and `sum` have a fast path for arrays without NULLs; `min` and `max` compare physical values as
`Option`s, where `None` is below every `Some`.

The per-row definitions the aggregates should agree with are `nonNullRows` and `physicalValues`.
Against them:

* `count` always agrees, and `has_non_null_value` and `sum` agree except on the empty list of row
  ids over an array without NULLs, where the fast paths answer `true` and `Some(0)`
  (`sum_eq_sumSpec`, `hasNonNullValue_eq_any`, `fast_paths_empty_row_ids`);
* `max` always agrees (`max_eq`), while `min` returns `None` whenever the first listed row is NULL
  (`min_eq`, `min_null_first_row`).

The array's value buffer holds a value in every slot, NULL slots included, as Arrow's does; the
statements quantify over all of it. Row ids past the end make the code panic; the model reads them
as non-NULL slots holding the default value, and the statements about the code hold for every
list of row ids. The logical type is an additive commutative monoid, as the integer types are with
wrapping addition, and `L::default()` is its zero.
-/

namespace IoxCore.ReadBuffer

/-- `FixedNull<P, L, T>`: the Arrow array, as its value buffer and validity bitmap, and the
transcoder's `decode`. -/
structure FixedNull (P L : Type) where
  /-- The value buffer; a NULL slot holds a value too. -/
  values : List P
  /-- The validity bitmap, `true` where the row is not NULL. -/
  validity : List Bool
  /-- `Transcoder::decode`. -/
  decode : P → L
  length_eq : values.length = validity.length

namespace FixedNull

variable {P L : Type}

/-- `num_rows`. -/
def numRows (c : FixedNull P L) : Nat := c.values.length

/-- `arr.is_null(i)`. -/
def arrIsNull (c : FixedNull P L) (i : Nat) : Bool := !c.validity.getD i true

/-- `null_count`. -/
def nullCount (c : FixedNull P L) : Nat := c.validity.count false

/-- `arr.value(i)`: the value buffer at `i`, NULL or not. -/
def arrValue [Inhabited P] (c : FixedNull P L) (i : Nat) : P := c.values.getD i default

/-- `value`: the logical value of a row, `none` where it is NULL. -/
def value [Inhabited P] (c : FixedNull P L) (rowId : Nat) : Option L :=
  if c.arrIsNull rowId then none else some (c.decode (c.arrValue rowId))

/-- `count`. -/
def count (c : FixedNull P L) (rowIds : List Nat) : Nat :=
  if c.nullCount = 0 then rowIds.length
  else rowIds.foldl (fun count i => if c.arrIsNull i then count else count + 1) 0

/-- `has_non_null_value`. -/
def hasNonNullValue (c : FixedNull P L) (rowIds : List Nat) : Bool :=
  if c.nullCount = 0 ∧ c.numRows > 0 then true
  else rowIds.any fun id => !c.arrIsNull id

section Sum

variable [Inhabited P] [AddCommMonoid L]

/-- The `chunks_exact(4)` loop of `sum`, which adds each chunk last element first, then the loop
over the remainder. -/
def sumChunks (f : Nat → L) : L → List Nat → L
  | result, a :: b :: c :: d :: rest => sumChunks f (result + f d + f c + f b + f a) rest
  | result, rest => rest.foldl (fun result i => result + f i) result

/-- One turn of the loop of `sum` over an array with NULLs: whether every row so far was NULL, and
the running sum. -/
def sumStep (c : FixedNull P L) (acc : Bool × L) (i : Nat) : Bool × L :=
  if c.arrIsNull i then acc else (false, acc.2 + c.decode (c.arrValue i))

/-- `sum`. -/
def sum (c : FixedNull P L) (rowIds : List Nat) : Option L :=
  if c.nullCount = 0 then some (sumChunks (fun i => c.decode (c.arrValue i)) 0 rowIds)
  else
    let (isNone, result) := rowIds.foldl c.sumStep (true, 0)
    if isNone then none else some result

end Sum

section MinMax

variable [Inhabited P] [LinearOrder P]

/-- Rust's `<` on `Option<P>`: `None` is below every `Some`. -/
def optionLt : Option P → Option P → Bool
  | none, some _ => true
  | some a, some b => decide (a < b)
  | _, _ => false

/-- One turn of the loop of `min`. -/
def minStep (c : FixedNull P L) (min : Option P) (rowId : Nat) : Option P :=
  if c.arrIsNull rowId then min
  else if optionLt (some (c.arrValue rowId)) min then some (c.arrValue rowId) else min

/-- One turn of the loop of `max`. -/
def maxStep (c : FixedNull P L) (max : Option P) (rowId : Nat) : Option P :=
  if c.arrIsNull rowId then max
  else if optionLt max (some (c.arrValue rowId)) then some (c.arrValue rowId) else max

/-- The value `min` and `max` start from: the first row's physical value, `none` if it is NULL. -/
def firstValue (c : FixedNull P L) (rowId : Nat) : Option P :=
  if c.arrIsNull rowId then none else some (c.arrValue rowId)

/-- `min`; `none` where `row_ids[0]` panics on an empty list. -/
def min (c : FixedNull P L) : List Nat → Option (Option L)
  | [] => none
  | r :: rs => some ((rs.foldl c.minStep (c.firstValue r)).map c.decode)

/-- `max`; `none` where `row_ids[0]` panics on an empty list. -/
def max (c : FixedNull P L) : List Nat → Option (Option L)
  | [] => none
  | r :: rs => some ((rs.foldl c.maxStep (c.firstValue r)).map c.decode)

end MinMax

/-! ## The per-row definitions -/

/-- The listed rows that are not NULL, in order and with repeats. -/
def nonNullRows (c : FixedNull P L) (rowIds : List Nat) : List Nat :=
  rowIds.filter fun i => !c.arrIsNull i

/-- The physical values of the listed rows that are not NULL. -/
def physicalValues [Inhabited P] (c : FixedNull P L) (rowIds : List Nat) : List P :=
  (c.nonNullRows rowIds).map c.arrValue

@[simp] theorem nonNullRows_nil (c : FixedNull P L) : c.nonNullRows [] = [] := rfl

theorem nonNullRows_cons (c : FixedNull P L) (i : Nat) (rowIds : List Nat) :
    c.nonNullRows (i :: rowIds) =
      if c.arrIsNull i then c.nonNullRows rowIds else i :: c.nonNullRows rowIds := by
  by_cases h : c.arrIsNull i <;> simp [nonNullRows, List.filter_cons, h]

theorem physicalValues_cons [Inhabited P] (c : FixedNull P L) (i : Nat) (rowIds : List Nat) :
    c.physicalValues (i :: rowIds) =
      if c.arrIsNull i then c.physicalValues rowIds else c.arrValue i :: c.physicalValues rowIds := by
  rw [physicalValues, nonNullRows_cons]
  split_ifs <;> rfl

/-- Without NULLs, every row is non-NULL. -/
theorem arrIsNull_eq_false_of_nullCount (c : FixedNull P L) (h : c.nullCount = 0) (i : Nat) :
    c.arrIsNull i = false := by
  have hnot : false ∉ c.validity := List.count_eq_zero.mp h
  unfold arrIsNull
  rw [List.getD_eq_getElem?_getD]
  cases hi : c.validity[i]? with
  | none => rfl
  | some b =>
    cases b
    · exact absurd (List.mem_iff_getElem?.mpr ⟨i, hi⟩) hnot
    · rfl

theorem nonNullRows_of_nullCount (c : FixedNull P L) (h : c.nullCount = 0) (rowIds : List Nat) :
    c.nonNullRows rowIds = rowIds :=
  List.filter_eq_self.mpr fun i _ => by simp [arrIsNull_eq_false_of_nullCount c h i]

/-! ## `count` and `has_non_null_value` -/

/-- `count` counts the listed rows that are not NULL. -/
theorem count_eq (c : FixedNull P L) (rowIds : List Nat) :
    c.count rowIds = (c.nonNullRows rowIds).length := by
  unfold count
  split_ifs with h
  · rw [nonNullRows_of_nullCount c h]
  · suffices ∀ n, rowIds.foldl (fun count i => if c.arrIsNull i then count else count + 1) n =
        n + (c.nonNullRows rowIds).length from by simpa using this 0
    induction rowIds with
    | nil => simp
    | cons i rowIds ih =>
      intro n
      rw [List.foldl_cons, ih, nonNullRows_cons]
      split_ifs <;> simp; omega

/-- `has_non_null_value` tells whether a listed row is not NULL, unless the array has no NULL and
no row is listed. -/
theorem hasNonNullValue_eq_any (c : FixedNull P L) {rowIds : List Nat}
    (h : rowIds ≠ [] ∨ c.nullCount ≠ 0) :
    c.hasNonNullValue rowIds = (c.nonNullRows rowIds).any fun _ => true := by
  unfold hasNonNullValue
  split_ifs with hfast
  · obtain ⟨i, is, rfl⟩ := List.exists_cons_of_ne_nil (h.resolve_right (not_not.mpr hfast.1))
    simp [nonNullRows_cons, arrIsNull_eq_false_of_nullCount c hfast.1]
  · simp [nonNullRows, List.any_filter]

/-! ## Values and sizes -/

/-- `values`, the logical value of each listed row, NULL or not; the `assert_eq!` on the length
holds. (The name `values` is the value buffer's here.) -/
def rowValues [Inhabited P] (c : FixedNull P L) (rowIds : List Nat) : List L ⊕ List (Option L) :=
  .inr (rowIds.map c.value)

/-- `all_values`: the logical value of every row. -/
def allValues [Inhabited P] (c : FixedNull P L) : List L ⊕ List (Option L) :=
  .inr ((List.range c.numRows).map c.value)

/-- `has_any_non_null_value`. -/
def hasAnyNonNullValue (c : FixedNull P L) : Bool := decide (c.nullCount < c.numRows)

/-- `size_raw`, with `size_of::<Vec<L>>()` and `size_of::<L>()` as `baseSize` and `sizeOfL`. -/
def sizeRaw (baseSize sizeOfL : Nat) (c : FixedNull P L) (includeNulls : Bool) : Nat :=
  if c.nullCount = 0 ∨ includeNulls then baseSize + c.numRows * sizeOfL
  else baseSize + (c.numRows - c.nullCount) * sizeOfL

/-- `has_any_non_null_value`, which compares the bitmap's NULL count with the number of rows,
holds exactly when some row of the array has a value. -/
theorem hasAnyNonNullValue_iff [Inhabited P] (c : FixedNull P L) :
    c.hasAnyNonNullValue = true ↔ ∃ i < c.numRows, c.value i ≠ none := by
  have hsplit := List.count_false_add_count_true c.validity
  have hcount : c.nullCount < c.validity.length ↔ true ∈ c.validity := by
    rw [nullCount, ← List.count_pos_iff]
    omega
  have hvalue : ∀ i (hi : i < c.validity.length), c.value i ≠ none ↔ c.validity[i] = true := by
    intro i hi
    simp [value, arrIsNull, List.getElem?_eq_getElem hi]
  rw [hasAnyNonNullValue, decide_eq_true_iff, numRows, c.length_eq, hcount, List.mem_iff_getElem]
  exact ⟨fun ⟨i, hi, h⟩ => ⟨i, hi, (hvalue i hi).mpr h⟩, fun ⟨i, hi, h⟩ => ⟨i, hi, (hvalue i hi).mp h⟩⟩

/-! ## `sum` -/

section Sum

variable [Inhabited P] [AddCommMonoid L]

/-- What `sum` should return: `none` if no listed row is non-NULL, else the sum of their logical
values. -/
def sumSpec (c : FixedNull P L) (rowIds : List Nat) : Option L :=
  if c.nonNullRows rowIds = [] then none
  else some ((c.physicalValues rowIds).map c.decode).sum

theorem foldl_add_eq (f : Nat → L) (result : L) (rest : List Nat) :
    rest.foldl (fun result i => result + f i) result = result + (rest.map f).sum := by
  induction rest generalizing result with
  | nil => simp
  | cons i rest ih => simp [ih, add_assoc]

/-- The unrolled loop adds every listed value once; the order does not matter. -/
theorem sumChunks_eq (f : Nat → L) (result : L) (rowIds : List Nat) :
    sumChunks f result rowIds = result + (rowIds.map f).sum := by
  induction result, rowIds using sumChunks.induct f with
  | case1 result a b c d rest ih =>
    rw [sumChunks, ih]
    simp only [List.map_cons, List.sum_cons]
    ac_rfl
  | case2 result rest _ => rw [sumChunks, foldl_add_eq]; all_goals simp_all

theorem foldl_sumStep (c : FixedNull P L) (acc : Bool × L) (rowIds : List Nat) :
    rowIds.foldl c.sumStep acc =
      (acc.1 && c.nonNullRows rowIds = [], acc.2 + ((c.physicalValues rowIds).map c.decode).sum) := by
  induction rowIds generalizing acc with
  | nil => simp [physicalValues]
  | cons i rowIds ih =>
    rw [List.foldl_cons, ih]
    by_cases hi : c.arrIsNull i <;> simp [sumStep, hi, nonNullRows_cons, physicalValues, add_assoc]

/-- `sum` agrees with the per-row definition, unless the array has no NULL and no row is listed. -/
theorem sum_eq_sumSpec (c : FixedNull P L) {rowIds : List Nat}
    (h : rowIds ≠ [] ∨ c.nullCount ≠ 0) : c.sum rowIds = c.sumSpec rowIds := by
  unfold sum sumSpec
  split_ifs with hfast hnil hnil
  · rw [nonNullRows_of_nullCount c hfast] at hnil
    exact absurd hnil (h.resolve_right (not_not.mpr hfast))
  · rw [sumChunks_eq, zero_add, physicalValues, nonNullRows_of_nullCount c hfast, List.map_map]
    rfl
  all_goals simp [foldl_sumStep, hnil]

/-- No listed row: over an array without NULLs the fast paths answer `true` and `Some(0)`; over the
same array with one more row, a NULL one, the per-row loops answer `false` and `None`. -/
theorem fast_paths_empty_row_ids :
    let c : FixedNull Int Int := ⟨[7], [true], id, rfl⟩
    let c' : FixedNull Int Int := ⟨[7, 0], [true, false], id, rfl⟩
    c.nonNullRows [] = [] ∧ c.hasNonNullValue [] = true ∧ c.sum [] = some 0 ∧
      c'.hasNonNullValue [] = false ∧ c'.sum [] = none :=
  ⟨rfl, rfl, rfl, rfl, rfl⟩

end Sum

/-! ## `min` and `max` -/

section MinMax

variable [Inhabited P] [LinearOrder P]

/-- From a value, a step of `max` on a non-NULL row keeps the greater one. -/
theorem maxStep_some (c : FixedNull P L) (m : P) {i : Nat} (hi : c.arrIsNull i = false) :
    c.maxStep (some m) i = some (Max.max m (c.arrValue i)) := by
  simp only [maxStep, hi, Bool.false_eq_true, ite_false, optionLt, decide_eq_true_eq]
  split_ifs with hlt
  · rw [max_eq_right hlt.le]
  · rw [max_eq_left (not_lt.mp hlt)]

/-- From a value, a step of `min` on a non-NULL row keeps the smaller one. -/
theorem minStep_some (c : FixedNull P L) (m : P) {i : Nat} (hi : c.arrIsNull i = false) :
    c.minStep (some m) i = some (Min.min m (c.arrValue i)) := by
  simp only [minStep, hi, Bool.false_eq_true, ite_false, optionLt, decide_eq_true_eq]
  split_ifs with hlt
  · rw [min_eq_right hlt.le]
  · rw [min_eq_left (not_lt.mp hlt)]

/-- From `None`, `max` takes the first non-NULL value, since `None` is below every `Some`. -/
theorem foldl_maxStep (c : FixedNull P L) (init : Option P) (rowIds : List Nat) :
    rowIds.foldl c.maxStep init = (init.toList ++ c.physicalValues rowIds).max? := by
  induction rowIds generalizing init with
  | nil => cases init <;> rfl
  | cons i rowIds ih =>
    rw [List.foldl_cons, ih, physicalValues_cons]
    by_cases hi : c.arrIsNull i
    · simp [maxStep, hi]
    · cases init with
      | none => simp [maxStep, hi, optionLt]
      | some m => rw [maxStep_some c m (by simpa using hi), if_neg hi]; rfl

/-- From `None`, `min` stays at `None`: no `Some` is below it. -/
theorem foldl_minStep (c : FixedNull P L) (init : Option P) (rowIds : List Nat) :
    rowIds.foldl c.minStep init = init.map fun m => (c.physicalValues rowIds).foldl Min.min m := by
  induction rowIds generalizing init with
  | nil => cases init <;> rfl
  | cons i rowIds ih =>
    rw [List.foldl_cons, ih, physicalValues_cons]
    by_cases hi : c.arrIsNull i
    · simp [minStep, hi]
    · cases init with
      | none => simp [minStep, hi, optionLt]
      | some m => rw [minStep_some c m (by simpa using hi), if_neg hi]; rfl

/-- `max` decodes the greatest physical value of the listed non-NULL rows, `none` if all are
NULL. -/
theorem max_eq (c : FixedNull P L) (r : Nat) (rs : List Nat) :
    c.max (r :: rs) = some ((c.physicalValues (r :: rs)).max?.map c.decode) := by
  simp only [max, foldl_maxStep, firstValue, physicalValues_cons]
  split_ifs <;> rfl

/-- `min` decodes the least physical value of the listed non-NULL rows if the first listed row is
not NULL, and is `none` if it is. -/
theorem min_eq (c : FixedNull P L) (r : Nat) (rs : List Nat) :
    c.min (r :: rs) =
      some (if c.arrIsNull r then none else (c.physicalValues (r :: rs)).min?.map c.decode) := by
  simp only [min, foldl_minStep, firstValue, physicalValues_cons]
  split_ifs <;> rfl

/-- A first listed row that is NULL: `min` returns `None` although the second row holds 5, which
`max` finds. -/
theorem min_null_first_row :
    let c : FixedNull Int Int := ⟨[0, 5], [false, true], id, rfl⟩
    c.physicalValues [0, 1] = [5] ∧ c.min [0, 1] = some none ∧ c.max [0, 1] = some (some 5) :=
  ⟨rfl, rfl, rfl⟩

end MinMax

end FixedNull

end IoxCore.ReadBuffer
