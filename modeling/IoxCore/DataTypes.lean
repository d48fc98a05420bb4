import Mathlib.Algebra.BigOperators.Group.List
import Mathlib.Algebra.Order.Ring.Nat
import Mathlib.Data.List.Sort
import Mathlib.Tactic.Common

/-!
# The catalog's identifiers

The `data_types` crate wraps every identifier in a newtype over a signed integer
(`PartitionId(i64)`, `SequencerId(i32)`, `SequenceNumber(i64)`, ...). Nothing in the modelled code
does arithmetic on them: identifiers are only compared for equality or used as ordered map keys,
and sequence numbers are only compared. So each is an `Int` here; a statement over every `Int` covers
every value of the narrower Rust type.
-/

namespace IoxCore

/-- `PartitionId(i64)`. -/
abbrev PartitionId := Int

/-- `SequencerId(i32)`: a shard of the write buffer. -/
abbrev SequencerId := Int

/-- `SequenceNumber(i64)`, assigned per sequencer by the write buffer. -/
abbrev SequenceNumber := Int

/-- `TombstoneId(i64)`. -/
abbrev TombstoneId := Int

/-- `ParquetFileId(i64)`. -/
abbrev ParquetFileId := Int

/-- `CompactionLevel`: `Initial` files are written by the ingester, `FileNonOverlapped` ones by the
compactor. -/
inductive CompactionLevel
  | initial
  | fileNonOverlapped
  deriving DecidableEq, Repr

@[simp] theorem except_ok_bind {ε α β : Type} (a : α) (f : α → Except ε β) :
    (Except.ok a >>= f) = f a := rfl

/-- A `Result` chained with `?` is `Ok` exactly when each step is. -/
theorem except_bind_eq_ok {ε α β : Type} {x : Except ε α} {f : α → Except ε β} {b : β} :
    x >>= f = .ok b ↔ ∃ a, x = .ok a ∧ f a = .ok b := by
  cases x <;> simp [bind, Except.bind]

end IoxCore
