import AmrFramework.CMath

/-!
# Scans and their transformation

A `LidarScan` is a list of ranges over a uniform grid of bearings. The
transform provider moves every beam's point by a planar rigid motion and keeps
the distance of the moved point, but leaves the grid of bearings as it was.

`transform_rigid_iff` says which scans survive that: those whose points move
along the rays of their own beams only.

A beam is read back at the bearing of its index. So the distance may change, and the direction
may not: the moved point is recovered exactly if it lies on the ray that it started on, and a
rotation or a sideways translation takes it off that ray for every beam but a few.
-/

namespace AmrFramework.Perception

universe u

/-- `LidarScan::kMaxRanges`. -/
def kMaxRanges : Nat := 2048

/-- A scan. The list holds the first `range_count` entries of the array. -/
structure LidarScan (K : Type u) : Type u where
  ranges : List (Option K)
  size_le : ranges.length ≤ kMaxRanges
  angleMin : K
  angleIncrement : K
  /-- `0` is "not stamped" -/
  stampNs : Int := 0

/-- What the transform provider looks up: a translation and a quaternion. -/
structure Transform (K : Type u) : Type u where
  x : K
  y : K
  qx : K
  qy : K
  qz : K
  qw : K

section Ring

variable {K : Type u} [Ring K]

/-- The bearing of beam `i`. -/
def LidarScan.angle (scan : LidarScan K) (i : Nat) : K := scan.angleMin + i * scan.angleIncrement

variable [CMath K]

/-- The rotation about the vertical axis. -/
def Transform.yaw (t : Transform K) : K :=
  CMath.atan2 (2 * (t.qw * t.qz + t.qx * t.qy)) (1 - 2 * (t.qy * t.qy + t.qz * t.qz))

/-- Rotate and translate a point. -/
def Transform.move (t : Transform K) (l : K × K) : K × K :=
  (CMath.cos t.yaw * l.1 - CMath.sin t.yaw * l.2 + t.x,
    CMath.sin t.yaw * l.1 + CMath.cos t.yaw * l.2 + t.y)

/-- From polar to Cartesian coordinates. -/
def cartesian (r angle : K) : K × K := (r * CMath.cos angle, r * CMath.sin angle)

/-- `transform_scan`, once the transform is found. The bearings stay, and the
time stamp is not copied. -/
def transformScan (t : Transform K) (scan : LidarScan K) : LidarScan K where
  ranges := scan.ranges.mapIdx fun i range => range.map fun r =>
    let b := t.move (cartesian r (scan.angle i))
    CMath.sqrt (b.1 * b.1 + b.2 * b.2)
  size_le := by
    rw [List.length_mapIdx]
    exact scan.size_le
  angleMin := scan.angleMin
  angleIncrement := scan.angleIncrement

/-- The point a consumer reconstructs from beam `i`. -/
def LidarScan.point (scan : LidarScan K) (i : Nat) : Option (K × K) :=
  (scan.ranges[i]?.join).map fun r => cartesian r (scan.angle i)

/-- How far the transform moves the end of a beam across the beam. -/
def Transform.across (t : Transform K) (r a : K) : K :=
  r * CMath.sin t.yaw + (t.y * CMath.cos a - t.x * CMath.sin a)

/-- Where it puts that end along the beam. -/
def Transform.along (t : Transform K) (r a : K) : K :=
  r * CMath.cos t.yaw + (t.x * CMath.cos a + t.y * CMath.sin a)

end Ring

/-! ## Rays

Being on a ray is two conditions, one across it and one along it; a point behind the origin fails
the second alone. -/

/-- The point `p` lies on the ray that leaves the origin at bearing `a`. -/
def OnRay (a : ℝ) (p : ℝ × ℝ) : Prop :=
  p.1 * Real.sin a = p.2 * Real.cos a ∧ 0 ≤ p.1 * Real.cos a + p.2 * Real.sin a

/-- A point on a ray is its distance along the ray. -/
theorem OnRay.eq_smul {a : ℝ} {p : ℝ × ℝ} (h : OnRay a p) :
    p = ((p.1 * Real.cos a + p.2 * Real.sin a) * Real.cos a,
      (p.1 * Real.cos a + p.2 * Real.sin a) * Real.sin a) := by
  obtain ⟨x, y⟩ := p
  obtain ⟨hcross, -⟩ := h
  have hunit := Real.sin_sq_add_cos_sq a
  have hx : x = (x * Real.cos a + y * Real.sin a) * Real.cos a :=
    calc x = x * (Real.sin a ^ 2 + Real.cos a ^ 2) := by rw [hunit, mul_one]
      _ = (x * Real.sin a) * Real.sin a + x * Real.cos a * Real.cos a := by ring
      _ = (y * Real.cos a) * Real.sin a + x * Real.cos a * Real.cos a := by rw [hcross]
      _ = (x * Real.cos a + y * Real.sin a) * Real.cos a := by ring
  have hy : y = (x * Real.cos a + y * Real.sin a) * Real.sin a :=
    calc y = y * (Real.sin a ^ 2 + Real.cos a ^ 2) := by rw [hunit, mul_one]
      _ = (y * Real.cos a) * Real.cos a + y * Real.sin a * Real.sin a := by ring
      _ = (x * Real.sin a) * Real.cos a + y * Real.sin a * Real.sin a := by rw [hcross]
      _ = (x * Real.cos a + y * Real.sin a) * Real.sin a := by ring
  exact Prod.ext hx hy

/-- The distance of a point, laid off at bearing `a`, is that point exactly when
it lies on the ray. -/
theorem cartesian_distance_iff (a : ℝ) (p : ℝ × ℝ) :
    cartesian (Real.sqrt (p.1 * p.1 + p.2 * p.2)) a = p ↔ OnRay a p := by
  have hunit := Real.sin_sq_add_cos_sq a
  constructor
  · intro h
    have hd := Real.sqrt_nonneg (p.1 * p.1 + p.2 * p.2)
    generalize Real.sqrt (p.1 * p.1 + p.2 * p.2) = d at h hd
    subst h
    change d * Real.cos a * Real.sin a = d * Real.sin a * Real.cos a ∧
      0 ≤ d * Real.cos a * Real.cos a + d * Real.sin a * Real.sin a
    have hlen : d * Real.cos a * Real.cos a + d * Real.sin a * Real.sin a = d :=
      calc d * Real.cos a * Real.cos a + d * Real.sin a * Real.sin a
          = d * (Real.sin a ^ 2 + Real.cos a ^ 2) := by ring
        _ = d := by rw [hunit, mul_one]
    exact ⟨by ring, hlen.symm ▸ hd⟩
  · intro h
    have hp := h.eq_smul
    have hsq : p.1 * p.1 + p.2 * p.2 = (p.1 * Real.cos a + p.2 * Real.sin a) ^ 2 := by
      generalize p.1 * Real.cos a + p.2 * Real.sin a = d at hp
      rw [hp]
      calc d * Real.cos a * (d * Real.cos a) + d * Real.sin a * (d * Real.sin a)
          = d ^ 2 * (Real.sin a ^ 2 + Real.cos a ^ 2) := by ring
        _ = d ^ 2 := by rw [hunit, mul_one]
    rw [hsq, Real.sqrt_sq h.2]
    exact hp.symm

/-! ## Rigidity

The end of a beam is moved by `across` perpendicular to the beam and to `along` in its direction.
Those are the two conditions, in terms of the transform. -/

/-- The end of a beam stays on the ray of the beam. -/
theorem onRay_move_iff (t : Transform ℝ) (r a : ℝ) :
    OnRay a (t.move (cartesian r a)) ↔ t.across r a = 0 ∧ 0 ≤ t.along r a := by
  have hunit := Real.sin_sq_add_cos_sq a
  have hacross : (t.move (cartesian r a)).2 * Real.cos a -
      (t.move (cartesian r a)).1 * Real.sin a = t.across r a :=
    calc (t.move (cartesian r a)).2 * Real.cos a - (t.move (cartesian r a)).1 * Real.sin a
        = r * Real.sin t.yaw * (Real.sin a ^ 2 + Real.cos a ^ 2) +
            (t.y * Real.cos a - t.x * Real.sin a) := by
          simp only [Transform.move, cartesian, CMath.sin_real, CMath.cos_real]
          ring
      _ = t.across r a := by rw [hunit, mul_one]; rfl
  have halong : (t.move (cartesian r a)).1 * Real.cos a +
      (t.move (cartesian r a)).2 * Real.sin a = t.along r a :=
    calc (t.move (cartesian r a)).1 * Real.cos a + (t.move (cartesian r a)).2 * Real.sin a
        = r * Real.cos t.yaw * (Real.sin a ^ 2 + Real.cos a ^ 2) +
            (t.x * Real.cos a + t.y * Real.sin a) := by
          simp only [Transform.move, cartesian, CMath.sin_real, CMath.cos_real]
          ring
      _ = t.along r a := by rw [hunit, mul_one]; rfl
  rw [OnRay, halong, ← hacross, sub_eq_zero, eq_comm]

/-- A beam with an echo. -/
def LidarScan.ValidBeam (scan : LidarScan ℝ) (i : Nat) (r : ℝ) : Prop :=
  scan.ranges[i]? = some (some r) ∧ 0 < r

/-- One beam of the output, read back. -/
theorem point_transformScan_iff {t : Transform ℝ} {scan : LidarScan ℝ} {i : Nat} {r : ℝ}
    (hbeam : scan.ValidBeam i r) :
    (transformScan t scan).point i = some (t.move (cartesian r (scan.angle i))) ↔
      t.across r (scan.angle i) = 0 ∧ 0 ≤ t.along r (scan.angle i) := by
  have hpoint : (transformScan t scan).point i =
      some (cartesian (Real.sqrt ((t.move (cartesian r (scan.angle i))).1 *
          (t.move (cartesian r (scan.angle i))).1 + (t.move (cartesian r (scan.angle i))).2 *
          (t.move (cartesian r (scan.angle i))).2)) (scan.angle i)) := by
    simp only [LidarScan.point, transformScan, List.getElem?_mapIdx, hbeam.1]
    rfl
  rw [hpoint, Option.some.injEq, cartesian_distance_iff]
  exact onRay_move_iff t r (scan.angle i)

/-- **Exactly when the output is the moved input**, beam by beam, for every transform: when no
valid beam's end is moved across its beam or behind its origin. -/
theorem transform_rigid_iff (t : Transform ℝ) (scan : LidarScan ℝ) :
    (∀ i r, scan.ValidBeam i r →
        (transformScan t scan).point i = some (t.move (cartesian r (scan.angle i)))) ↔
      ∀ i r, scan.ValidBeam i r →
        t.across r (scan.angle i) = 0 ∧ 0 ≤ t.along r (scan.angle i) :=
  forall₃_congr fun _ _ hbeam => point_transformScan_iff hbeam

/-- One beam of length 1 straight ahead. -/
def oneBeam : LidarScan ℝ where
  ranges := [some 1]
  size_le := by decide
  angleMin := 0
  angleIncrement := 0

/-- A sensor mounted one metre to the left. -/
def leftMount : Transform ℝ where
  x := 0
  y := 1
  qx := 0
  qy := 0
  qz := 0
  qw := 1

/-- The beam ends at `(1, 1)` in the new frame, but is still reported straight
ahead. -/
theorem transform_not_rigid :
    ¬ ∀ i r, oneBeam.ValidBeam i r → (transformScan leftMount oneBeam).point i =
      some (leftMount.move (cartesian r (oneBeam.angle i))) := by
  intro h
  have hyaw : leftMount.yaw = 0 := by
    have harg : Complex.arg ⟨1, 0⟩ = 0 := Complex.arg_ofReal_of_nonneg zero_le_one
    simpa [Transform.yaw, leftMount, CMath.atan2] using harg
  have hbeam : oneBeam.ValidBeam 0 1 := ⟨rfl, one_pos⟩
  obtain ⟨hacross, -⟩ := (point_transformScan_iff hbeam).mp (h 0 1 hbeam)
  rw [Transform.across, hyaw] at hacross
  simp [leftMount, LidarScan.angle, oneBeam] at hacross

end AmrFramework.Perception
