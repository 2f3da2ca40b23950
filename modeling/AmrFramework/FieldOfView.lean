import AmrFramework.GuardContract
import AmrFramework.VfhAvoidance
import Mathlib.Analysis.Real.Pi.Bounds

/-!
# The field of view of the guard

The guard compares the angle of a beam with its field of view as it is, the avoidance layer
wraps it first. Where every angle lies in `(-π, π]` they see the same obstacles
(`nearestInFov_eq_goalFov`). But the guard does not see an obstacle that the scan
puts a turn further on, so its field of view is one of angles only as long as there is
nothing to see (`angular_iff`).

An angle is a number of radians, and the same direction has many of them. A function of the
direction gives the same for all; that is the notion the guard is compared with (`Angular`), and
the scan with its first angle some turns further on is what tells the two apart.
-/

namespace AmrFramework.Execution

open Real

/-- Wrapping an angle takes whole turns off it. -/
theorem exists_wrap_eq (a : ℝ) : ∃ m : ℤ, wrap a = a + 2 * π * m := by
  have harg := Complex.arg_cos_add_sin_mul_I_eq_toIocMod a
  rw [← Complex.ofReal_cos, ← Complex.ofReal_sin, ← Complex.mk_eq_add_mul_I] at harg
  refine ⟨-toIocDiv two_pi_pos (-π) a, ?_⟩
  change Complex.arg ⟨cos a, sin a⟩ = _
  rw [harg, toIocMod, zsmul_eq_mul]
  push_cast
  ring

/-- Turns do not change what is wrapped, -/
theorem wrap_add_turns (m : ℤ) (a : ℝ) : wrap (a + 2 * π * m) = wrap a := by
  rw [mul_comm (2 * π)]
  simp [wrap]

/-- The angle of a beam. -/
def ScanData.angle {K : Type*} [Ring K] (scan : ScanData K) (i : Nat) : K :=
  scan.angleMin + i * scan.angleIncrement

/-- The scan with `angle_min` some turns further on. -/
noncomputable def CollisionGuard.turned (g : CollisionGuard ℝ) (k : ℤ) : CollisionGuard ℝ :=
  { g with scan := { g.scan with angleMin := g.scan.angleMin + 2 * π * k } }

section FieldOfView

variable {g : CollisionGuard ℝ}

/-- Nothing is seen when there are no echoes. -/
theorem nearestInFov_eq_none : g.nearestInFov = none ↔ ∀ i r, ¬g.params.EchoAt g.scan i r := by
  constructor
  · intro hnone i r hr
    obtain ⟨d, hd, -⟩ := exists_nearest_le hr
    rw [hnone] at hd
    cases hd
  · intro hall
    cases hd : g.nearestInFov with
    | none => rfl
    | some d =>
      obtain ⟨⟨i, hi⟩, -⟩ := nearestInFov_eq_some.mp hd
      exact absurd hi (hall i d)

/-- What is seen of the scan some turns on. -/
theorem echoAt_turned {k : ℤ} {i : Nat} {r : ℝ} :
    g.params.EchoAt (g.turned k).scan i r ↔ g.scan.ranges[i]? = some (some r) ∧
      g.params.Echo r ∧ |g.scan.angle i + 2 * π * k| ≤ g.params.fovHalf := by
  have hangle : g.scan.angleMin + 2 * π * k + i * g.scan.angleIncrement =
      g.scan.angle i + 2 * π * k := by
    rw [ScanData.angle]
    ring
  rw [GuardParams.EchoAt, ← hangle]
  rfl

/-- Enough turns take all beams out of the field of view. -/
theorem exists_turned_eq_none (g : CollisionGuard ℝ) :
    ∃ k : ℤ, (g.turned k).nearestInFov = none := by
  obtain ⟨b, hb⟩ := ((Finset.range g.scan.ranges.length).image fun i => |g.scan.angle i|).exists_le
  obtain ⟨k, hk⟩ := exists_int_gt ((g.params.fovHalf + b) / (2 * π))
  refine ⟨k, nearestInFov_eq_none.mpr fun i r hr => ?_⟩
  obtain ⟨hrange, -, hfov⟩ := echoAt_turned.mp hr
  have hi := Finset.mem_range.mpr (List.getElem?_eq_some_iff.mp hrange).1
  have hle : |g.scan.angle i| ≤ b := hb _ (Finset.mem_image_of_mem _ hi)
  have hturn : g.params.fovHalf + b < 2 * π * k := by
    rw [mul_comm]
    exact (div_lt_iff₀ two_pi_pos).mp hk
  have hfar : 2 * π * k - |g.scan.angle i| ≤ |g.scan.angle i + 2 * π * k| := by
    have habs := abs_le.mp (le_refl |g.scan.angle i|)
    exact le_trans (by linarith) (le_abs_self _)
  linarith

/-- What the avoidance layer sees straight ahead. -/
theorem mem_goalFov {p : VfhParams ℝ} {scan : ScanData ℝ} {r : ℝ} :
    r ∈ (scan.echoes.filter fun (_, a) => |wrap (a - 0)| ≤ p.fovHalf).map Prod.fst ↔
      ∃ i : Nat, scan.ranges[i]? = some (some r) ∧ 0 < r ∧ |wrap (scan.angle i)| ≤ p.fovHalf := by
  simp only [ScanData.echoes, List.mem_map, List.mem_filter, decide_eq_true_eq, Prod.exists,
    exists_and_right, exists_eq_right, mem_beams, sub_zero]
  constructor
  · rintro ⟨a, ⟨⟨i, hi, rfl⟩, hpos⟩, hfov⟩
    exact ⟨i, hi, hpos, hfov⟩
  · rintro ⟨i, hi, hpos, hfov⟩
    exact ⟨_, ⟨⟨i, hi, rfl⟩, hpos⟩, hfov⟩

/-- The least element is a matter of the elements. -/
theorem min?_eq_of_mem_iff {l l' : List ℝ} (h : ∀ r, r ∈ l ↔ r ∈ l') : l.min? = l'.min? := by
  cases hd : l'.min? with
  | none =>
    rw [List.min?_eq_none_iff] at hd ⊢
    subst hd
    exact List.eq_nil_iff_forall_not_mem.mpr fun r hr => List.not_mem_nil ((h r).mp hr)
  | some d =>
    obtain ⟨hmem, hle⟩ := List.min?_eq_some_iff.mp hd
    exact List.min?_eq_some_iff.mpr ⟨(h d).mpr hmem, fun r hr => hle r ((h r).mp hr)⟩

/-- The two see the same when wrapping takes no echo into the field of view or out of it. -/
theorem goalFov_eq_of_wrap {p : VfhParams ℝ} (hfov : p.fovHalf = g.params.fovHalf)
    (hmax : ∀ r, some r ∈ g.scan.ranges → r ≤ g.params.rangeMax)
    (h : ∀ i r, g.scan.ranges[i]? = some (some r) → g.params.Echo r →
      (|wrap (g.scan.angle i)| ≤ g.params.fovHalf ↔ |g.scan.angle i| ≤ g.params.fovHalf)) :
    p.nearestInGoalFov g.scan 0 = g.nearestInFov := by
  refine min?_eq_of_mem_iff fun r => ?_
  rw [mem_goalFov, mem_echoes, hfov]
  refine exists_congr fun i => and_congr_right fun hi => ?_
  have hecho : g.params.Echo r ↔ 0 < r := and_iff_left (hmax r (List.mem_of_getElem? hi))
  rw [hecho]
  exact and_congr_right fun hpos => h i r hi (hecho.mpr hpos)

/-- **Angles in `(-π, π]`** are seen alike by the guard and by the avoidance. The guard compares
the angle of the beam itself and the avoidance the wrapped one, which is the same angle there. -/
theorem nearestInFov_eq_goalFov {p : VfhParams ℝ} (hfov : p.fovHalf = g.params.fovHalf)
    (hmax : ∀ r, some r ∈ g.scan.ranges → r ≤ g.params.rangeMax)
    (hangle : ∀ i < g.scan.ranges.length, g.scan.angle i ∈ Set.Ioc (-π) π) :
    p.nearestInGoalFov g.scan 0 = g.nearestInFov := by
  refine goalFov_eq_of_wrap hfov hmax fun i r hi _ => ?_
  rw [wrap_of_mem (hangle i (List.getElem?_eq_some_iff.mp hi).1)]

/-! ## Turning the scan

For one direction, the equivalence is in the choice of the turns: with enough of them every beam
is outside of the field of view as the guard computes it, so a guard that does not depend on them
sees nothing. -/

/-- The field of view is one of angles: turning the scan changes nothing, and the avoidance
layer sees the same. -/
structure CollisionGuard.Angular (g : CollisionGuard ℝ) : Prop where
  turned : ∀ k : ℤ, (g.turned k).nearestInFov = g.nearestInFov
  agrees : ∀ p : VfhParams ℝ, p.fovHalf = g.params.fovHalf →
    (∀ r, some r ∈ g.scan.ranges → r ≤ g.params.rangeMax) →
      p.nearestInGoalFov g.scan 0 = g.nearestInFov

/-- Beam `i` has an echo that is in the field of view, turns aside. -/
def CollisionGuard.Ahead (g : CollisionGuard ℝ) (i : Nat) : Prop :=
  ∃ r, g.scan.ranges[i]? = some (some r) ∧ g.params.Echo r ∧
    ∃ m : ℤ, |g.scan.angle i + 2 * π * m| ≤ g.params.fovHalf

/-- **The field of view is one of angles** exactly if there is no echo in it. With an echo ahead
a scan that is some turns on shows nothing (`exists_turned_eq_none`), while turning back until
the echo is in the field of view shows it; without one there is nothing to see, however it is
turned. -/
theorem angular_iff (g : CollisionGuard ℝ) : g.Angular ↔ ∀ i, ¬g.Ahead i := by
  constructor
  · rintro h i ⟨r, hi, hecho, m, hfov⟩
    obtain ⟨k, hk⟩ := exists_turned_eq_none g
    -- it is seen after some turns, and not after many
    obtain ⟨d, hd, -⟩ := exists_nearest_le (g := g.turned m) (echoAt_turned.mpr ⟨hi, hecho, hfov⟩)
    rw [h.turned m, ← h.turned k, hk] at hd
    cases hd
  · intro h
    have hnone : ∀ k : ℤ, (g.turned k).nearestInFov = none := fun k =>
      nearestInFov_eq_none.mpr fun i r hr => h i ⟨r, (echoAt_turned.mp hr).1,
        (echoAt_turned.mp hr).2.1, k, (echoAt_turned.mp hr).2.2⟩
    have hzero : g.turned 0 = g := by simp [CollisionGuard.turned]
    refine ⟨fun k => by rw [hnone k, ← hnone 0, hzero], fun p hfov hmax => ?_⟩
    refine goalFov_eq_of_wrap hfov hmax fun i r hi hecho => ?_
    have hturn : ∀ m : ℤ, ¬|g.scan.angle i + 2 * π * m| ≤ g.params.fovHalf :=
      fun m hm => h i ⟨r, hi, hecho, m, hm⟩
    obtain ⟨m, hm⟩ := exists_wrap_eq (g.scan.angle i)
    refine iff_of_false (hm ▸ hturn m) ?_
    have hplain := hturn 0
    rwa [Int.cast_zero, mul_zero, add_zero] at hplain

/-- A scan over `[0, 2π)` with an obstacle close to the front, at 330°: the guard does not see
it, and the avoidance layer does. -/
theorem not_angular :
    let scan : ScanData ℝ := ⟨List.replicate 11 none ++ [some 0.2], 0, π / 6⟩
    let g : CollisionGuard ℝ := { scan, recvTime := some 0 }
    g.nearestInFov = none ∧ (g.turned (-1)).nearestInFov = some 0.2 ∧
      VfhParams.nearestInGoalFov {} scan 0 = some 0.2 := by
  intro scan g
  have hrange : ∀ (i : Nat) (r : ℝ), scan.ranges[i]? = some (some r) ↔ i = 11 ∧ r = 0.2 := by
    intro i r
    change (List.replicate 11 none ++ [some 0.2])[i]? = some (some r) ↔ _
    rcases lt_trichotomy i 11 with hlt | rfl | hgt
    · rw [List.getElem?_append_left (by simpa using hlt), List.getElem?_replicate, if_pos hlt]
      simp [hlt.ne]
    · simp [eq_comm]
    · rw [List.getElem?_eq_none (by simpa using Nat.succ_le_of_lt hgt)]
      simp [hgt.ne']
  have hangle : scan.angle 11 = 11 * (π / 6) := by simp [ScanData.angle, scan]
  have hpi := pi_gt_three
  have hpi' := pi_lt_d2
  -- 330° are -30° after a turn
  have hturn : scan.angle 11 + 2 * π * ((-1 : ℤ) : ℝ) = -(π / 6) := by
    rw [hangle]
    push_cast
    ring
  have habs : |-(π / 6)| ≤ (0.7854 : ℝ) := by
    rw [abs_neg, abs_of_pos (by linarith)]
    linarith
  refine ⟨?_, ?_, ?_⟩
  · refine nearestInFov_eq_none.mpr fun i r hr => ?_
    obtain ⟨rfl, rfl⟩ := (hrange i r).mp hr.1
    have hfov : |scan.angle 11| ≤ 0.7854 := hr.2.2
    rw [hangle, abs_of_pos (by linarith)] at hfov
    linarith
  · refine nearestInFov_eq_some.mpr ⟨⟨11, echoAt_turned.mpr ⟨(hrange 11 _).mpr ⟨rfl, rfl⟩, ?_, ?_⟩⟩,
      fun i r hr => ?_⟩
    · norm_num [GuardParams.Echo, g]
    · rw [show g.scan.angle 11 + 2 * π * ((-1 : ℤ) : ℝ) = -(π / 6) from hturn]
      exact habs
    · exact ((hrange i r).mp hr.1).2.ge
  · refine List.min?_eq_some_iff.mpr ⟨mem_goalFov.mpr ⟨11, (hrange 11 _).mpr ⟨rfl, rfl⟩, ?_, ?_⟩,
      fun r hr => ?_⟩
    · norm_num
    · have hwrap : wrap (scan.angle 11) = -(π / 6) := by
        rw [← wrap_add_turns (-1), hturn, wrap_of_mem ⟨by linarith, by linarith⟩]
      rw [hwrap]
      exact habs
    · obtain ⟨i, hi, -⟩ := mem_goalFov.mp hr
      exact ((hrange i r).mp hi).2.ge

end FieldOfView

end AmrFramework.Execution
