import Mathlib.Algebra.BigOperators.Group.Finset.Piecewise
import Mathlib.Algebra.Order.BigOperators.Group.Finset
import Mathlib.Algebra.Order.Field.Rat
import Mathlib.Tactic.NormNum

/-!
# The latency histogram

Latencies are counted in 64 buckets, each up to twice the one before. The bounds
are computed twice: `record` looks for the first one above the latency, and the
export multiplies its own along while it adds up the counts. The two agree on the
bounds, but not on the edges: a label says "at most" and the count is of what is
below. And the export goes on multiplying after the bounds have left 64 bits.
-/

namespace AmrFramework.Observability

def kBucketCount : Nat := 64
def kBaseUs : Int64 := 2

/-- The counters of `Histogram`: 64 buckets with bounds that double, the number of samples, and
their sum. -/
structure Histogram : Type where
  buckets : Nat → Nat := fun _ => 0
  totalCount : Nat := 0
  totalSumUs : Int64 := 0

/-! ## The two loops

`record` counts bounds until one is above the latency, `write_histogram` multiplies a bound
along. Both compute in 64 bits, where a doubling past the last one gives a negative number and
then zero. -/

/-- The search of `record`: how many bounds the latency reaches, of the `left` that
the loop may still pass. -/
def search (latencyUs : Int64) : (left : Nat) → (bound : Int64) → Nat
  | 0, _ => 0
  | left + 1, bound =>
    if latencyUs ≥ bound then search latencyUs left (bound * kBaseUs) + 1 else 0

/-- The bucket that a latency is counted in. -/
def bucketOf (latencyUs : Int64) : Nat := search latencyUs (kBucketCount - 1) kBaseUs

/-- `record`. The sum is kept in 64 bits and may wrap. -/
def Histogram.record (h : Histogram) (latencyUs : Int64) : Histogram where
  buckets := Function.update h.buckets (bucketOf latencyUs) (h.buckets (bucketOf latencyUs) + 1)
  totalCount := h.totalCount + 1
  totalSumUs := h.totalSumUs + latencyUs

/-- A number of microseconds in seconds, as a fraction. -/
def seconds (us : Int64) : ℚ := us.toInt / 1000000

/-- An exported bucket: its label `le` and its value. -/
structure Row : Type where
  le : ℚ
  value : Nat

/-- The lines of `write_histogram`, with the value of the `+Inf` bucket. Labels are in seconds. -/
structure Exported : Type where
  count : Nat
  sum : ℚ
  rows : List Row
  inf : Nat

/-- The loop of `write_histogram` from bucket `i` on. The bound is multiplied along, and does not
come from the search of `record`. -/
def exportRows (buckets : Nat → Nat) : (left i cumulative : Nat) → (boundUs : Int64) → List Row
  | 0, _, _, _ => []
  | left + 1, i, cumulative, boundUs =>
    ⟨seconds boundUs, cumulative + buckets i⟩ ::
      exportRows buckets left (i + 1) (cumulative + buckets i) (boundUs * kBaseUs)

/-- `write_histogram`. -/
def writeHistogram (h : Histogram) : Exported where
  count := h.totalCount
  sum := seconds h.totalSumUs
  rows := exportRows h.buckets kBucketCount 0 0 kBaseUs
  inf := h.totalCount

/-- The histogram after the latencies, newest first. -/
def recorded : List Int64 → Histogram
  | [] => {}
  | us :: samples => (recorded samples).record us

/-- What a scraper may expect of the lines: positive labels in increasing order, cumulative
values that count the samples up to their label, and a last bucket that counts all. -/
structure Agrees (samples : List Int64) (x : Exported) : Prop where
  positive : ∀ row ∈ x.rows, 0 < row.le
  increasing : x.rows.Pairwise fun a b => a.le < b.le
  values : ∀ row ∈ x.rows, row.value = samples.countP fun us => seconds us ≤ row.le
  cumulative : x.rows.Pairwise fun a b => a.value ≤ b.value
  last : ∀ row ∈ x.rows.getLast?, row.value ≤ x.inf
  inf_eq : x.inf = x.count

/-! ## The bounds

The two loops see the same bounds, in the same order; here they are a function of the bucket. -/

/-- The bound of a bucket, in 64 bits: as many doublings as the number of the bucket. -/
def boundAt (j : Nat) : Int64 := (· * kBaseUs)^[j] kBaseUs

theorem toInt_boundAt (j : Nat) : (boundAt j).toInt = Int.bmod (2 ^ (j + 1)) (2 ^ 64) := by
  induction j with
  | zero => rfl
  | succ j ih =>
    rw [boundAt, Function.iterate_succ_apply', ← boundAt, Int64.toInt_mul, ih, Int.bmod_mul_bmod,
      pow_succ]
    rfl

/-- The bounds double until the last but one. The bound of bucket 62 is negative, and that of
bucket 63 is zero. -/
theorem toInt_boundAt_of_le {j : Nat} (hj : j ≤ 61) : (boundAt j).toInt = 2 ^ (j + 1) := by
  have hpow : (2 : Int) ^ (j + 1) ≤ 2 ^ 62 := pow_le_pow_right₀ (by norm_num) (by omega)
  have hpos : (0 : Int) < 2 ^ (j + 1) := by positivity
  rw [toInt_boundAt]
  exact Int.bmod_eq_of_le (by omega) (by omega)

/-- The last bound has left the 64 bits. -/
theorem boundAt_last : (boundAt 63).toInt = 0 := by
  rw [toInt_boundAt]
  decide

/-! ## What is counted where

The buckets are disjoint, so what is added up to a bucket is the count of all latencies in it and
before it. -/

/-- The search stops at the first bound above the latency. Stated without the loop: there is a
bound above the latency among the first ones. -/
theorem search_le_iff {latencyUs : Int64} {left j : Nat} (hj : j < left) (bound : Int64) :
    search latencyUs left bound ≤ j ↔ ∃ t ≤ j, latencyUs < (· * kBaseUs)^[t] bound := by
  induction left generalizing j bound with
  | zero => exact absurd hj (Nat.not_lt_zero j)
  | succ left ih =>
    rw [search]
    split
    · next hreached =>
      cases j with
      | zero => simpa using hreached
      | succ j =>
        rw [Nat.succ_le_succ_iff, ih (Nat.lt_of_succ_lt_succ hj)]
        constructor
        · rintro ⟨t, ht, hlt⟩
          exact ⟨t + 1, Nat.succ_le_succ ht, hlt⟩
        · rintro ⟨t, ht, hlt⟩
          cases t with
          | zero => exact absurd hreached (Int64.not_le.mpr hlt)
          | succ t => exact ⟨t, Nat.le_of_succ_le_succ ht, hlt⟩
    · next hbelow => simpa using ⟨0, Nat.zero_le j, Int64.not_le.mp hbelow⟩

/-- Up to the bucket of a bound are the latencies below it. -/
theorem bucketOf_le_iff (latencyUs : Int64) {j : Nat} (hj : j ≤ 61) :
    bucketOf latencyUs ≤ j ↔ latencyUs.toInt < 2 ^ (j + 1) := by
  rw [bucketOf, search_le_iff (by simp only [kBucketCount]; omega), ← toInt_boundAt_of_le hj,
    ← Int64.lt_iff_toInt_lt]
  refine ⟨?_, fun hlt => ⟨j, Nat.le_refl j, hlt⟩⟩
  rintro ⟨t, ht, hlt⟩
  have hle : boundAt t ≤ boundAt j := by
    rw [Int64.le_iff_toInt_le, toInt_boundAt_of_le (ht.trans hj), toInt_boundAt_of_le hj]
    exact pow_le_pow_right₀ (by norm_num) (by omega)
  exact Int64.lt_of_lt_of_le hlt hle

theorem search_le (latencyUs : Int64) (left : Nat) (bound : Int64) :
    search latencyUs left bound ≤ left := by
  induction left generalizing bound with
  | zero => simp [search]
  | succ left ih =>
    rw [search]
    split
    · exact Nat.succ_le_succ (ih _)
    · exact Nat.zero_le _

/-- Adding up the buckets counts the latencies in them. -/
theorem sum_buckets (samples : List Int64) (n : Nat) :
    ∑ t ∈ Finset.range n, (recorded samples).buckets t =
      samples.countP fun us => bucketOf us < n := by
  induction samples with
  | nil => simp [recorded]
  | cons us samples ih =>
    have hone : ∀ t, (recorded (us :: samples)).buckets t =
        (recorded samples).buckets t + if t = bucketOf us then 1 else 0 := by
      intro t
      by_cases ht : t = bucketOf us <;> simp [recorded, Histogram.record, ht]
    simp only [hone, Finset.sum_add_distrib, ih, List.countP_cons, Finset.sum_ite_eq',
      Finset.mem_range, decide_eq_true_eq]

theorem totalCount_recorded (samples : List Int64) :
    (recorded samples).totalCount = samples.length := by
  induction samples with
  | nil => rfl
  | cons us samples ih => simp [recorded, Histogram.record, ih]

/-! ## What is exported

The lines of the last buckets have labels that are no bounds any more. So the export is never
quite right, and the lines below those are wrong only where a latency is exactly on a bound. -/

/-- A line of the export, from its bucket and the counts so far. -/
theorem exportRows_getElem? (buckets : Nat → Nat) (left i cumulative : Nat) (boundUs : Int64)
    {j : Nat} (hj : j < left) :
    (exportRows buckets left i cumulative boundUs)[j]? =
      some ⟨seconds ((· * kBaseUs)^[j] boundUs),
        cumulative + ∑ t ∈ Finset.range (j + 1), buckets (i + t)⟩ := by
  induction left generalizing i cumulative boundUs j with
  | zero => exact absurd hj (Nat.not_lt_zero j)
  | succ left ih =>
    cases j with
    | zero => simp [exportRows]
    | succ j =>
      rw [exportRows, List.getElem?_cons_succ, ih _ _ _ (Nat.lt_of_succ_lt_succ hj),
        Finset.sum_range_succ' _ (j + 1)]
      simp [Nat.add_assoc, Nat.add_comm, Nat.add_left_comm]

/-- A line of the histogram of some latencies. -/
theorem rows_getElem? (samples : List Int64) {j : Nat} (hj : j < kBucketCount) :
    (writeHistogram (recorded samples)).rows[j]? =
      some ⟨seconds (boundAt j), samples.countP fun us => bucketOf us < j + 1⟩ := by
  rw [writeHistogram, exportRows_getElem? _ _ _ _ _ hj, ← sum_buckets]
  simp [boundAt]

/-- The lines up to the last bound that fits count the latencies below their labels. The label
says "at most". -/
theorem rows_below (samples : List Int64) {j : Nat} (hj : j ≤ 61) :
    (writeHistogram (recorded samples)).rows[j]? =
      some ⟨2 ^ (j + 1) / 1000000, samples.countP fun us => us.toInt < 2 ^ (j + 1)⟩ := by
  have hbelow (us : Int64) : bucketOf us < j + 1 ↔ us.toInt < 2 ^ (j + 1) :=
    Nat.lt_succ_iff.trans (bucketOf_le_iff us hj)
  rw [rows_getElem? samples (by simp only [kBucketCount]; omega), seconds, toInt_boundAt_of_le hj]
  simp [hbelow]

/-- Such a line has the value that its label promises when no latency is on the edge, and only
then. -/
theorem value_right_iff (samples : List Int64) (n : Nat) :
    (samples.countP fun us => us.toInt < 2 ^ n) =
        (samples.countP fun us => seconds us ≤ (2 ^ n / 1000000 : ℚ)) ↔
      ∀ us ∈ samples, us.toInt ≠ 2 ^ n := by
  have hle : ∀ us : Int64, seconds us ≤ (2 ^ n / 1000000 : ℚ) ↔ us.toInt ≤ 2 ^ n := by
    intro us
    rw [seconds, div_le_div_iff_of_pos_right (by norm_num)]
    exact_mod_cast Iff.rfl
  simp only [hle]
  induction samples with
  | nil => simp
  | cons us samples ih =>
    have hmono : (samples.countP fun us => us.toInt < 2 ^ n) ≤
        samples.countP fun us => us.toInt ≤ 2 ^ n :=
      List.countP_mono_left fun us _ hlt => by
        simp only [decide_eq_true_eq] at hlt ⊢
        exact hlt.le
    simp only [List.countP_cons, List.forall_mem_cons, ← ih, decide_eq_true_eq]
    obtain hlt | heq | hgt := lt_trichotomy us.toInt (2 ^ n)
    · simp [hlt, hlt.le, hlt.ne]
    · simp only [heq, lt_irrefl, le_refl, if_true, if_false, ne_eq, not_true, false_and, iff_false]
      omega
    · simp [hgt.not_gt, hgt.not_ge, hgt.ne']

/-- The values do not go down. This part of the contract holds for all lines. -/
theorem values_mono (samples : List Int64) {i j : Nat} (hij : i ≤ j) :
    (samples.countP fun us => bucketOf us < i + 1) ≤
      samples.countP fun us => bucketOf us < j + 1 := by
  apply List.countP_mono_left
  intro us _ hlt
  simp only [decide_eq_true_eq] at hlt ⊢
  omega

/-- The last value is the count of all latencies. -/
theorem last_value (samples : List Int64) :
    (samples.countP fun us => bucketOf us < kBucketCount) =
      (writeHistogram (recorded samples)).inf := by
  rw [writeHistogram, totalCount_recorded, List.countP_eq_length]
  intro us _
  have hle : bucketOf us ≤ kBucketCount - 1 := search_le us (kBucketCount - 1) kBaseUs
  exact decide_eq_true (Nat.lt_succ_of_le hle)

/-- **The labels.** Whatever was recorded, the last label is zero: 63 doublings of 2 have left 64
bits. A label of zero after positive ones breaks the order of the labels, so no history of
samples is exported as it should be. -/
theorem histogram_never_agrees (samples : List Int64) :
    ¬ Agrees samples (writeHistogram (recorded samples)) := by
  intro h
  have hlast := rows_getElem? samples (j := 63) (by decide)
  have hpos := h.positive _ (List.mem_of_getElem? hlast)
  rw [seconds, boundAt_last] at hpos
  norm_num at hpos

/-- A latency of 2 us is not counted under the label of 2 us. -/
theorem histogram_edge :
    ¬ ∀ samples : List Int64, (∀ us ∈ samples, 0 ≤ us) →
      Agrees samples (writeHistogram (recorded samples)) := by
  intro h
  have hrow := rows_below [2] (j := 0) (by decide)
  have hnonneg : ∀ us ∈ [(2 : Int64)], 0 ≤ us := List.forall_mem_singleton.mpr (by decide)
  have hvalue := (h [2] hnonneg).values _ (List.mem_of_getElem? hrow)
  have hedge := (value_right_iff [2] 1).mp hvalue
  exact hedge 2 (by decide) (by decide)

end AmrFramework.Observability
