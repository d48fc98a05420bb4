import Mathlib

/-!
# Exponential backoff with jitter

`backoff/src/lib.rs`. Each call of `Backoff::next` draws a backoff from
`init_backoff..next_backoff_secs * base`, caps it at `max_backoff`, stores it as the next one, and
returns the one it had stored before. So the `k`-th backoff returned lies between the initial one
and `min(max_backoff, init_backoff * base^k)`, and the range of every draw is non-empty, as
`gen_range` needs.

`retry_with_backoff` runs the attempts until one breaks, sleeping the next backoff after each
that continues; so under a valid configuration it sleeps exactly the backoffs above and never
panics.

The `f64` arithmetic is read as exact: the model works in any linear ordered field (every finite
`f64` is a rational, so `ℚ` already holds the code's values). The RNG is a function of the call's
index and the requested range; `DrawsInRange` says that each draw lies in the range it was asked
for.
-/

namespace IoxCore

variable {α : Type} [LinearOrderedField α]

/-- `BackoffConfig`, with its durations in seconds. -/
structure BackoffConfig (α : Type) where
  initBackoff : α
  maxBackoff : α
  base : α

/-- `Backoff`, without its RNG. -/
structure Backoff (α : Type) where
  initBackoff : α
  nextBackoffSecs : α
  maxBackoffSecs : α
  base : α

namespace Backoff

/-- `Backoff::new_with_rng`. -/
def newWithRng (config : BackoffConfig α) : Backoff α :=
  ⟨config.initBackoff, config.initBackoff, config.maxBackoff, config.base⟩

/-- `Rng::gen_range(lo..hi)`, for an RNG that returns `draw lo hi` on that range: it panics on an
empty range. -/
def genRange (draw : α → α → α) (lo hi : α) : Option α :=
  if lo < hi then some (draw lo hi) else none

/-- `Duration::from_secs_f64`, which panics on a negative number of seconds. -/
def durationFromSecsF64 (secs : α) : Option α :=
  if secs < 0 then none else some secs

/-- `Backoff::next`, with the RNG's draw for this call; `none` where it panics. -/
def next (b : Backoff α) (draw : α → α → α) : Option (α × Backoff α) := do
  let randBackoff ← genRange draw b.initBackoff (b.nextBackoffSecs * b.base)
  let nextBackoff := min b.maxBackoffSecs randBackoff
  let d ← durationFromSecsF64 b.nextBackoffSecs
  pure (d, { b with nextBackoffSecs := nextBackoff })

/-- `n` consecutive calls of `next`, the `k`-th of them drawing with `rng k`. -/
def nexts (rng : Nat → α → α → α) : Nat → Backoff α → Option (List α × Backoff α)
  | 0, b => some ([], b)
  | n + 1, b => do
    let (d, b') ← b.next (rng 0)
    let (ds, b'') ← nexts (fun k => rng (k + 1)) n b'
    pure (d :: ds, b'')

/-- Every value the RNG returns lies in the range it was asked for. -/
def DrawsInRange (rng : Nat → α → α → α) : Prop :=
  ∀ k lo hi, lo < hi → lo ≤ rng k lo hi ∧ rng k lo hi < hi

/-! ## The invariant -/

/-- The state after `k` calls: the configuration's parameters, and a stored backoff between the
initial one and `min(max_backoff, init_backoff * base^k)`. -/
structure Bounded (config : BackoffConfig α) (k : Nat) (b : Backoff α) : Prop where
  init_eq : b.initBackoff = config.initBackoff
  max_eq : b.maxBackoffSecs = config.maxBackoff
  base_eq : b.base = config.base
  init_le : config.initBackoff ≤ b.nextBackoffSecs
  le_cap : b.nextBackoffSecs ≤ min config.maxBackoff (config.initBackoff * config.base ^ k)

section Valid

variable {config : BackoffConfig α} (hinit : 0 < config.initBackoff)
  (hmax : config.initBackoff ≤ config.maxBackoff) (hbase : 1 < config.base)

include hmax in
theorem bounded_newWithRng : Bounded config 0 (newWithRng config) :=
  ⟨rfl, rfl, rfl, le_rfl, by simp [newWithRng, hmax]⟩

include hinit hbase in
/-- The range of the next draw is not empty: the stored backoff times `base` exceeds it. -/
theorem init_lt_range {k : Nat} {b : Backoff α} (hb : Bounded config k b) :
    b.initBackoff < b.nextBackoffSecs * b.base := by
  rw [hb.init_eq, hb.base_eq]
  calc config.initBackoff ≤ b.nextBackoffSecs := hb.init_le
    _ < b.nextBackoffSecs * config.base :=
      lt_mul_of_one_lt_right (hinit.trans_le hb.init_le) hbase

include hinit hmax hbase in
/-- One call returns the stored backoff, and the state stays bounded one power of `base` further. -/
theorem next_bounded {k : Nat} {b : Backoff α} (hb : Bounded config k b) {draw : α → α → α}
    (hdraw : ∀ lo hi, lo < hi → lo ≤ draw lo hi ∧ draw lo hi < hi) :
    ∃ b', b.next draw = some (b.nextBackoffSecs, b') ∧ Bounded config (k + 1) b' := by
  have hrange := init_lt_range hinit hbase hb
  obtain ⟨hlo, hhi⟩ := hdraw _ _ hrange
  have hnonneg : ¬ b.nextBackoffSecs < 0 := not_lt.mpr (hinit.le.trans hb.init_le)
  refine ⟨{ b with nextBackoffSecs := min b.maxBackoffSecs (draw b.initBackoff
    (b.nextBackoffSecs * b.base)) }, by simp [next, genRange, hrange, durationFromSecsF64, hnonneg],
    ?_⟩
  generalize draw b.initBackoff (b.nextBackoffSecs * b.base) = r at hlo hhi ⊢
  rw [hb.init_eq] at hlo
  rw [hb.base_eq] at hhi
  have hcap : r ≤ config.initBackoff * config.base ^ (k + 1) :=
    calc r ≤ b.nextBackoffSecs * config.base := hhi.le
      _ ≤ config.initBackoff * config.base ^ k * config.base :=
        mul_le_mul_of_nonneg_right (hb.le_cap.trans (min_le_right _ _)) (zero_le_one.trans hbase.le)
      _ = config.initBackoff * config.base ^ (k + 1) := by rw [pow_succ, mul_assoc]
  exact ⟨hb.init_eq, hb.max_eq, hb.base_eq, le_min (hmax.trans hb.max_eq.ge) hlo,
    min_le_min hb.max_eq.le hcap⟩

include hinit hmax hbase in
/-- From a state bounded after `k` calls, `n` more calls return `n` backoffs, the `j`-th of them
between the initial one and `min(max_backoff, init_backoff * base^(k + j))`. -/
theorem nexts_bounded (n : Nat) :
    ∀ {rng : Nat → α → α → α}, DrawsInRange rng → ∀ {k : Nat} {b : Backoff α},
      Bounded config k b → ∃ ds b', nexts rng n b = some (ds, b') ∧ Bounded config (k + n) b' ∧
        ds.length = n ∧ ∀ j (hj : j < ds.length), config.initBackoff ≤ ds[j] ∧
          ds[j] ≤ min config.maxBackoff (config.initBackoff * config.base ^ (k + j)) := by
  intro rng hrng k b hb
  induction n generalizing rng k b with
  | zero => exact ⟨[], _, rfl, hb, rfl, fun j hj => absurd hj (Nat.not_lt_zero j)⟩
  | succ n ih =>
    obtain ⟨b₁, hnext, hb₁⟩ := next_bounded hinit hmax hbase hb (hrng 0)
    obtain ⟨ds, b', hrun, hb', hlen, hds⟩ := ih (fun j => hrng (j + 1)) hb₁
    refine ⟨b.nextBackoffSecs :: ds, b', by simp [nexts, hnext, hrun], ?_, by simp [hlen],
      fun j hj => ?_⟩
    · rwa [Nat.add_right_comm, Nat.add_assoc] at hb'
    · cases j with
      | zero => exact ⟨hb.init_le, hb.le_cap⟩
      | succ j =>
        obtain ⟨hlo, hhi⟩ := hds j (by simpa using hj)
        exact ⟨hlo, by rwa [Nat.add_right_comm, Nat.add_assoc] at hhi⟩

end Valid

/-- For every configuration with `0 < init_backoff ≤ max_backoff` and `base > 1`, and every RNG
that draws inside the ranges it is asked for: after any number of calls the range of the next draw
is not empty, so no call of `next` panics, and the `k`-th backoff returned lies between
`init_backoff` and `min(max_backoff, init_backoff * base^k)`. -/
theorem backoff_next_within_bounds (config : BackoffConfig α) (hinit : 0 < config.initBackoff)
    (hmax : config.initBackoff ≤ config.maxBackoff) (hbase : 1 < config.base)
    (rng : Nat → α → α → α) (hrng : DrawsInRange rng) :
    (∀ n ds b, (newWithRng config).nexts rng n = some (ds, b) →
      b.initBackoff < b.nextBackoffSecs * b.base) ∧
    ∀ n, ∃ ds b, (newWithRng config).nexts rng n = some (ds, b) ∧ ds.length = n ∧
      ∀ k (hk : k < ds.length), config.initBackoff ≤ ds[k] ∧
        ds[k] ≤ min config.maxBackoff (config.initBackoff * config.base ^ k) := by
  have hrun := fun n => nexts_bounded hinit hmax hbase n hrng (bounded_newWithRng hmax)
  refine ⟨fun n ds b h => ?_, fun n => ?_⟩
  · obtain ⟨ds', b', h', hb', -⟩ := hrun n
    obtain rfl : b = b' := congrArg Prod.snd (Option.some.inj (h.symm.trans h'))
    exact init_lt_range hinit hbase hb'
  · obtain ⟨ds, b, h, -, hlen, hds⟩ := hrun n
    exact ⟨ds, b, h, hlen, fun k hk => by simpa using hds k hk⟩

theorem backoff_next_within_bounds_min_rng :
    (0 : ℚ) < 1 ∧ (1 : ℚ) ≤ 500 ∧ (1 : ℚ) < 3 ∧
    DrawsInRange (fun _ lo _ => lo : Nat → ℚ → ℚ → ℚ) ∧
    (∀ n ds b, (newWithRng (⟨1, 500, 3⟩ : BackoffConfig ℚ)).nexts (fun _ lo _ => lo) n =
        some (ds, b) → b.initBackoff < b.nextBackoffSecs * b.base) ∧
    ∀ n, ∃ ds b, (newWithRng (⟨1, 500, 3⟩ : BackoffConfig ℚ)).nexts (fun _ lo _ => lo) n =
        some (ds, b) ∧ ds.length = n ∧
      ∀ k (hk : k < ds.length), 1 ≤ ds[k] ∧ ds[k] ≤ min 500 (1 * 3 ^ k) :=
  have hrng : DrawsInRange (fun _ lo _ => lo : Nat → ℚ → ℚ → ℚ) := fun _ _ _ h => ⟨le_rfl, h⟩
  ⟨by norm_num, by norm_num, by norm_num, hrng,
    backoff_next_within_bounds ⟨1, 500, 3⟩ (by norm_num) (by norm_num) (by norm_num) _ hrng⟩

/-! ## Retrying -/

/-- `retry_with_backoff` for at most `fuel` attempts: the `k`-th attempt returns
`attempts k` (`some r` for `ControlFlow::Break(r)`, `none` for `ControlFlow::Continue`,
whose error is only logged), and the `k`-th backoff is drawn with `rng k`. The result, the
backoffs slept before it, and the state; `none` where `next` panics or the fuel runs out. -/
def retryWithBackoff {B : Type} (rng : Nat → α → α → α) (attempts : Nat → Option B) :
    Nat → Backoff α → Option (B × List α × Backoff α)
  | 0, _ => none
  | fuel + 1, b =>
    match attempts 0 with
    | some r => some (r, [], b)
    | none => do
      let (backoff, b') ← b.next (rng 0)
      let (r, sleeps, b'') ←
        retryWithBackoff (fun k => rng (k + 1)) (fun k => attempts (k + 1)) fuel b'
      pure (r, backoff :: sleeps, b'')

/-- `retry_all_errors`: `retry_with_backoff` on attempts that retry every `Err`. -/
def retryAllErrors {B E : Type} (rng : Nat → α → α → α) (attempts : Nat → Except E B) :
    Nat → Backoff α → Option (B × List α × Backoff α) :=
  retryWithBackoff rng fun k => (attempts k).toOption

/-- When the first `n` attempts continue and the next breaks with `r`, and there is fuel for
them, `retry_with_backoff` sleeps the first `n` backoffs of `next` and returns `r`. -/
theorem retryWithBackoff_eq_nexts {B : Type} {n : Nat} :
    ∀ {rng : Nat → α → α → α} {attempts : Nat → Option B} {r : B} {fuel : Nat} (b : Backoff α),
      attempts n = some r → (∀ k < n, attempts k = none) → n < fuel →
      retryWithBackoff rng attempts fuel b = (b.nexts rng n).map fun (ds, b') => (r, ds, b') := by
  induction n with
  | zero =>
    intro rng attempts r fuel b hr _ hfuel
    cases fuel with
    | zero => omega
    | succ fuel => simp [retryWithBackoff, nexts, hr]
  | succ n ih =>
    intro rng attempts r fuel b hr hbefore hfuel
    cases fuel with
    | zero => omega
    | succ fuel =>
      have hrest := fun b' => @ih (fun k => rng (k + 1)) (fun k => attempts (k + 1)) r fuel b' hr
        (fun k hk => hbefore (k + 1) (Nat.succ_lt_succ hk)) (by omega)
      simp only [retryWithBackoff, hbefore 0 (Nat.succ_pos n), nexts]
      cases b.next (rng 0) with
      | none => rfl
      | some p =>
        simp only [Option.bind_eq_bind, Option.some_bind, hrest]
        cases nexts (fun k => rng (k + 1)) n p.2 <;> rfl

/-- Under a valid configuration and an RNG that draws inside its ranges, `retry_with_backoff`
whose first `n` attempts continue and whose next breaks with `r` returns `r`, given fuel for
those attempts, after `n` sleeps, the `k`-th between `init_backoff` and
`min(max_backoff, init_backoff * base^k)`. -/
theorem retryWithBackoff_returns {B : Type} (config : BackoffConfig α)
    (hinit : 0 < config.initBackoff) (hmax : config.initBackoff ≤ config.maxBackoff)
    (hbase : 1 < config.base) {rng : Nat → α → α → α} (hrng : DrawsInRange rng)
    {attempts : Nat → Option B} {n : Nat} {r : B} (hr : attempts n = some r)
    (hbefore : ∀ k < n, attempts k = none) {fuel : Nat} (hfuel : n < fuel) :
    ∃ sleeps b, retryWithBackoff rng attempts fuel (newWithRng config) = some (r, sleeps, b) ∧
      sleeps.length = n ∧ ∀ k (hk : k < sleeps.length), config.initBackoff ≤ sleeps[k] ∧
        sleeps[k] ≤ min config.maxBackoff (config.initBackoff * config.base ^ k) := by
  obtain ⟨ds, b, hrun, -, hlen, hds⟩ :=
    nexts_bounded hinit hmax hbase n hrng (bounded_newWithRng hmax)
  refine ⟨ds, b, ?_, hlen, fun k hk => by simpa using hds k hk⟩
  rw [retryWithBackoff_eq_nexts _ hr hbefore hfuel, hrun]
  rfl

theorem retryWithBackoff_returns_third :
    ∃ sleeps b, retryWithBackoff (fun _ lo _ => lo : Nat → ℚ → ℚ → ℚ)
        (fun k => if k = 2 then some () else none) 3
        (newWithRng (⟨1, 500, 3⟩ : BackoffConfig ℚ)) = some ((), sleeps, b) ∧
      sleeps.length = 2 ∧ ∀ k (hk : k < sleeps.length), 1 ≤ sleeps[k] ∧
        sleeps[k] ≤ min 500 (1 * 3 ^ k) :=
  by
    apply retryWithBackoff_returns ⟨1, 500, 3⟩ (by norm_num) (by norm_num) (by norm_num)
      fun _ _ _ h => ⟨le_rfl, h⟩
    · rfl
    · intro k hk
      exact if_neg (by omega)
    · norm_num

end Backoff

end IoxCore
