import AmrFramework.CMath
import AmrFramework.RayExit

/-!
# The movers of the simulated scene

A mover is a box that moves at a constant speed. An update moves it, reflects it at the walls,
and then pushes it out of the neighbourhood of the robot, whose velocity it is turned away from.
The push goes to the distance `kRobotClearance` from the robot wherever that is: from a robot
near a wall it goes through the wall.

It does not where there is no wall within that distance from the robot behind the mover
(`keepsInside_iff`). No mover meets one when the robot keeps that distance from all walls ahead
of it, and only then (`clear_iff`). Speeds never change (`run_speeds`).
-/

namespace AmrFramework.Simulation

open RayExit

universe u

variable {K : Type u}

/-- What `SceneParams` says about the movers. -/
structure SceneParams (K : Type u) [Field K] : Type u where
  movers : Int := 0
  moverSpeed : K := 0.6

structure MovingBox (K : Type u) : Type u where
  cx : K
  cy : K
  half : K
  vx : K
  vy : K

/-- The movers of a `SimulatedScene`. -/
structure SimulatedScene (K : Type u) : Type u where
  movers : List (MovingBox K) := []

variable [Field K] [LinearOrder K]

/-- What `spawn_movers` draws in a round: its distributions are uniform, so any value of the
intervals may come. -/
structure Draw (K : Type u) [Field K] [LinearOrder K] : Type u where
  x : K
  y : K
  heading : K
  x_mem : x ∈ Set.Icc 4 17
  y_mem : y ∈ Set.Icc (-4) 4

variable [CMath K]

/-- `std::hypot`. -/
def hypot (x y : K) : K := CMath.sqrt (x * x + y * y)

/-- The body of the loop of `spawn_movers`; `draw` is what comes out of the generator, round by
round. -/
def spawnRound (p : SceneParams K) (draw : Nat → Draw K) (movers : List (MovingBox K))
    (guard : Nat) : List (MovingBox K) :=
  if movers.length < p.movers then
    let d := draw guard
    -- too near to where the robot starts
    if hypot (d.x - 2) (d.y - 0) < 3 then movers
    else movers ++ [⟨d.x, d.y, 0.3, p.moverSpeed * CMath.cos d.heading,
      p.moverSpeed * CMath.sin d.heading⟩]
  else movers

/-- `spawn_movers`: rounds of draws until there are enough movers, or too many rounds have been
rejected. -/
def spawnMovers (p : SceneParams K) (draw : Nat → Draw K) : List (MovingBox K) :=
  (List.range 1000).foldl (spawnRound p draw) []

/-- The constructor. -/
def makeScene (p : SceneParams K) (draw : Nat → Draw K) : SimulatedScene K :=
  { movers := spawnMovers p draw }

/-! ## An update

`update` goes through the movers one by one, and none of them is looked at for another one. So a
scene is described mover by mover. -/

/-- `kRobotClearance`. -/
def kRobotClearance : K := 1.2

/-- A position and a velocity, reflected at both ends of an interval: first at the lower one,
then at the upper one, each at most once. -/
def reflect (lo hi : K) (c v : K) : K × K :=
  let low := if c < lo then (2 * lo - c, -v) else (c, v)
  if hi < low.1 then (2 * hi - low.1, -low.2) else low

namespace MovingBox

variable (m : MovingBox K)

/-- It moves, and bounces off the walls, along each axis on its own. -/
def bounce (dt : K) : MovingBox K :=
  let limX := 19 - m.half
  let limY := 5 - m.half
  let x := reflect m.half limX (m.cx + m.vx * dt) m.vx
  let y := reflect (-limY) limY (m.cy + m.vy * dt) m.vy
  { m with cx := x.1, vx := x.2, cy := y.1, vy := y.2 }

/-- In the neighbourhood of the robot, but not on it: from a robot on the spot there is no
direction to be pushed in. -/
def Near (robot : K × K) : Prop :=
  let d := hypot (m.cx - robot.1) (m.cy - robot.2)
  d < kRobotClearance ∧ 1e-3 < d

instance (robot : K × K) : Decidable (m.Near robot) := inferInstanceAs (Decidable (_ ∧ _))

/-- Out of the neighbourhood of the robot: to the clearance, in the direction away from the
robot. Nothing looks whether there is a wall in between. -/
def push (robot : K × K) : MovingBox K :=
  let dx := m.cx - robot.1
  let dy := m.cy - robot.2
  let d := hypot dx dy
  let nx := dx / d
  let ny := dy / d
  let out := { m with cx := robot.1 + nx * kRobotClearance, cy := robot.2 + ny * kRobotClearance }
  let vn := m.vx * nx + m.vy * ny
  -- only when it moves towards the robot
  if vn < 0 then { out with vx := m.vx - 2 * vn * nx, vy := m.vy - 2 * vn * ny } else out

/-- It deflects around the robot, if it is near. -/
def deflect (robot : K × K) : MovingBox K := if m.Near robot then m.push robot else m

end MovingBox

/-- The arguments of `update`. -/
structure Tick (K : Type u) : Type u where
  dt : K
  robot : K × K

/-- `update`. -/
def SimulatedScene.update (s : SimulatedScene K) (t : Tick K) : SimulatedScene K :=
  { s with movers := s.movers.map fun m => (m.bounce t.dt).deflect t.robot }

/-- `update` without a robot: the source passes one that is a thousand kilometres off. -/
def Tick.absent (dt : K) : Tick K := ⟨dt, (1.0e6, 1.0e6)⟩

/-- The scene after some updates. -/
def SimulatedScene.run (s : SimulatedScene K) (ticks : List (Tick K)) : SimulatedScene K :=
  ticks.foldl update s

/-! ## The arena

The centre of a mover stays in a box that is smaller than the arena by half the mover. -/

/-- The corners of the box that a centre has to stay in: the arena, less `half` on each side. -/
def innerLo (half : K) : K × K := (half, -(5 - half))

def innerHi (half : K) : K × K := (19 - half, 5 - half)

namespace MovingBox

variable (m : MovingBox K)

def center : K × K := (m.cx, m.cy)

def speed : K := hypot m.vx m.vy

def Inside : Prop := m.half ≤ m.cx ∧ m.cx ≤ 19 - m.half ∧ |m.cy| ≤ 5 - m.half

/-- As the robot sees it there is a wall behind the mover, within the clearance. A push goes
through such a wall. -/
def WallBehind (robot : K × K) : Prop :=
  ∃ t, 1 ≤ t ∧ t * hypot (m.cx - robot.1) (m.cy - robot.2) < kRobotClearance ∧
    OnWall (innerLo m.half) (innerHi m.half) robot (ray robot m.center t)

/-- There is room for the mover that an update finds near the robot: no wall is behind it, within
the clearance. -/
def Roomy (t : Tick K) : Prop :=
  (m.bounce t.dt).Near t.robot → ¬ (m.bounce t.dt).WallBehind t.robot

end MovingBox

/-- The robot keeps the clearance from the walls ahead of it, which is a condition on the robot
alone. -/
def Clear (half : K) (robot : K × K) : Prop :=
  ∀ p, OnWall (innerLo half) (innerHi half) robot p →
    kRobotClearance ≤ hypot (p.1 - robot.1) (p.2 - robot.2)

namespace SimulatedScene

/-- After every update the movers are inside. -/
def KeepsInside (s : SimulatedScene K) : List (Tick K) → Prop
  | [] => True
  | t :: ts => (∀ m ∈ (s.update t).movers, m.Inside) ∧ (s.update t).KeepsInside ts

/-- At every update there is room. -/
def AllRoomy (s : SimulatedScene K) : List (Tick K) → Prop
  | [] => True
  | t :: ts => (∀ m ∈ s.movers, m.Roomy t) ∧ (s.update t).AllRoomy ts

end SimulatedScene

/-- A tick in which no mover gets farther than the centres' box is high, so that it cannot bounce
twice. -/
def SceneParams.Short (p : SceneParams K) (t : Tick K) : Prop :=
  0 ≤ |p.moverSpeed| * t.dt ∧ |p.moverSpeed| * t.dt ≤ 2 * (5 - 0.3)

/-! ## Bouncing

A reflection is exact as long as the step is no longer than the box, which a short tick sees to. -/

section Bounce

variable [IsStrictOrderedRing K] {lo hi c δ v : K}

omit [CMath K] in
/-- From inside the interval one reflection is enough, if the way is no longer than the interval. -/
theorem reflect_mem (hc : c ∈ Set.Icc lo hi) (hδ : |δ| ≤ hi - lo) :
    (reflect lo hi (c + δ) v).1 ∈ Set.Icc lo hi := by
  obtain ⟨hlo, hhi⟩ := abs_le.mp hδ
  obtain ⟨hclo, hchi⟩ := hc
  simp only [reflect]
  split_ifs with hlow hhigh hhigh
  · simp only at hhigh ⊢
    exact ⟨by linarith, by linarith⟩
  · simp only at hhigh ⊢
    exact ⟨by linarith, by linarith⟩
  · simp only at hhigh ⊢
    exact ⟨by linarith, by linarith⟩
  · simp only at hhigh ⊢
    exact ⟨by linarith, by linarith⟩

omit [CMath K] [IsStrictOrderedRing K] in
theorem reflect_velocity (c v : K) :
    (reflect lo hi c v).2 * (reflect lo hi c v).2 = v * v := by
  simp only [reflect]
  split_ifs <;> simp

end Bounce

/-! ## Over the real numbers

The push goes along a ray from the robot through the centre, to a fixed distance. Whether it ends
inside is the question that `RayExit` answers. -/

theorem hypot_nonneg (x y : ℝ) : 0 ≤ hypot x y := Real.sqrt_nonneg _

theorem hypot_mul_self (x y : ℝ) : hypot x y * hypot x y = x * x + y * y := by
  rw [hypot, CMath.sqrt_real]
  exact Real.mul_self_sqrt (add_nonneg (mul_self_nonneg x) (mul_self_nonneg y))

theorem abs_fst_le_hypot (x y : ℝ) : |x| ≤ hypot x y := by
  refine abs_le_of_sq_le_sq ?_ (hypot_nonneg x y)
  nlinarith [hypot_mul_self x y, mul_self_nonneg y]

theorem abs_snd_le_hypot (x y : ℝ) : |y| ≤ hypot x y := by
  refine abs_le_of_sq_le_sq ?_ (hypot_nonneg x y)
  nlinarith [hypot_mul_self x y, mul_self_nonneg x]

theorem hypot_le_add (x y : ℝ) : hypot x y ≤ |x| + |y| := by
  refine le_of_sq_le_sq ?_ (add_nonneg (abs_nonneg x) (abs_nonneg y))
  nlinarith [hypot_mul_self x y, abs_mul_abs_self x, abs_mul_abs_self y,
    mul_nonneg (abs_nonneg x) (abs_nonneg y)]

namespace MovingBox

variable {m : MovingBox ℝ} {robot : ℝ × ℝ} {dt : ℝ}

theorem inside_iff : m.Inside ↔ m.center ∈ Set.Icc (innerLo m.half) (innerHi m.half) := by
  rw [Inside, mem_box, abs_le]
  exact and_assoc.symm

@[simp] theorem half_bounce : (m.bounce dt).half = m.half := rfl

@[simp] theorem half_deflect : (m.deflect robot).half = m.half := by
  simp only [deflect, push]
  split_ifs <;> rfl

theorem speed_bounce : (m.bounce dt).speed = m.speed := by
  simp only [speed, hypot, bounce, reflect_velocity]

theorem Inside.bounce (h : m.Inside) (hx : |m.vx * dt| ≤ 19 - 2 * m.half)
    (hy : |m.vy * dt| ≤ 2 * (5 - m.half)) : (m.bounce dt).Inside := by
  have hinx := reflect_mem (v := m.vx) ⟨h.1, h.2.1⟩ (hx.trans_eq (by ring))
  have hiny := reflect_mem (v := m.vy) (abs_le.mp h.2.2) (hy.trans_eq (by ring))
  exact ⟨hinx.1, hinx.2, abs_le.mpr hiny⟩

/-- The gap to a robot that a mover is pushed away from is not zero. -/
theorem Near.pos (h : m.Near robot) : 0 < hypot (m.cx - robot.1) (m.cy - robot.2) :=
  lt_trans (by norm_num) h.2

/-- The push goes on along the ray from the robot through the mover, so whether it leaves the box
is a question about that ray. -/
theorem center_push (robot : ℝ × ℝ) :
    (m.push robot).center =
      ray robot m.center (kRobotClearance / hypot (m.cx - robot.1) (m.cy - robot.2)) := by
  have hpush : (m.push robot).center =
      (robot.1 + (m.cx - robot.1) / hypot (m.cx - robot.1) (m.cy - robot.2) * kRobotClearance,
        robot.2 + (m.cy - robot.2) / hypot (m.cx - robot.1) (m.cy - robot.2) *
          kRobotClearance) := by
    simp only [push]
    split <;> rfl
  rw [hpush, ray, along, along, center, div_mul_comm, div_mul_comm (m.cy - robot.2)]

/-- A velocity is reflected on a line: the normal has length one. -/
theorem speed_push (h : 0 < hypot (m.cx - robot.1) (m.cy - robot.2)) :
    (m.push robot).speed = m.speed := by
  have hsq := hypot_mul_self (m.cx - robot.1) (m.cy - robot.2)
  simp only [push]
  generalize hypot (m.cx - robot.1) (m.cy - robot.2) = d at h hsq ⊢
  have hunit : (m.cx - robot.1) / d * ((m.cx - robot.1) / d) +
      (m.cy - robot.2) / d * ((m.cy - robot.2) / d) = 1 := by
    rw [div_mul_div_comm, div_mul_div_comm, ← add_div, ← hsq, div_self (mul_pos h h).ne']
  generalize (m.cx - robot.1) / d = nx at hunit ⊢
  generalize (m.cy - robot.2) / d = ny at hunit ⊢
  split
  · rw [speed, speed, hypot, hypot]
    refine congrArg _ ?_
    linear_combination 4 * (m.vx * nx + m.vy * ny) ^ 2 * hunit
  · rfl

theorem speed_deflect : (m.deflect robot).speed = m.speed := by
  rw [deflect]
  split
  case isTrue h => exact speed_push h.pos
  case isFalse => rfl

/-- **Where a mover is after the push.** It is still inside exactly when the ray from the robot
meets no wall ahead of the robot before the clearance. -/
theorem inside_deflect_iff (hin : m.Inside) :
    (m.deflect robot).Inside ↔ (m.Near robot → ¬ m.WallBehind robot) := by
  by_cases h : m.Near robot
  · have hpos := h.pos
    have hlate : 1 ≤ kRobotClearance / hypot (m.cx - robot.1) (m.cy - robot.2) :=
      (one_le_div hpos).mpr h.1.le
    rw [inside_iff, half_deflect, deflect, if_pos h, center_push,
      ray_mem_iff (inside_iff.mp hin) hlate,
      imp_iff_right h, WallBehind, not_exists]
    refine forall_congr' fun t => ?_
    rw [Set.mem_Ico, lt_div_iff₀ hpos]
    tauto
  · rw [deflect, if_neg h]
    exact iff_of_true hin fun hnear => absurd hnear h

end MovingBox

/-! ## Clear robots

A condition on the robot alone, so that it can be met without knowing where the movers are. -/

theorem hypot_mul {t : ℝ} (ht : 0 ≤ t) (x y : ℝ) : hypot (t * x) (t * y) = t * hypot x y := by
  refine (mul_self_inj (hypot_nonneg _ _) (mul_nonneg ht (hypot_nonneg x y))).mp ?_
  rw [hypot_mul_self, mul_mul_mul_comm t (hypot x y), hypot_mul_self]
  ring

theorem Clear.not_wallBehind {m : MovingBox ℝ} {robot : ℝ × ℝ} (h : Clear m.half robot) :
    ¬ m.WallBehind robot := by
  rintro ⟨t, ht, hnear, hwall⟩
  have hfar := h _ hwall
  rw [ray, along, along, add_sub_cancel_left, add_sub_cancel_left,
    hypot_mul (zero_le_one.trans ht)] at hfar
  exact absurd hnear (not_lt.mpr hfar)

/-- There is another point half a metre along a wall. -/
theorem exists_shift {lo hi c : ℝ} (hc : c ∈ Set.Icc lo hi) (hlong : 1 ≤ hi - lo) :
    ∃ c' ∈ Set.Icc lo hi, |c' - c| = 1 / 2 := by
  obtain ⟨hlo, hhi⟩ := hc
  obtain hroom | hroom := le_total (c + 1 / 2) hi
  · refine ⟨c + 1 / 2, ⟨by linarith, hroom⟩, ?_⟩
    rw [add_sub_cancel_left, abs_of_pos one_half_pos]
  · refine ⟨c - 1 / 2, ⟨by linarith, by linarith⟩, ?_⟩
    rw [sub_sub_cancel_left, abs_neg, abs_of_pos one_half_pos]

/-- Half a metre along one axis leads away from a robot that is on the spot. -/
theorem near_of_shift {x x' y r₁ r₂ : ℝ} (hat : hypot (x - r₁) (y - r₂) ≤ 1e-3)
    (hshift : |x' - x| = 1 / 2) :
    hypot (x' - r₁) (y - r₂) < kRobotClearance ∧ 1e-3 < hypot (x' - r₁) (y - r₂) := by
  have hx := (abs_fst_le_hypot (x - r₁) (y - r₂)).trans hat
  have hy := (abs_snd_le_hypot (x - r₁) (y - r₂)).trans hat
  have hle : |x' - r₁| ≤ |x' - x| + |x - r₁| := abs_sub_le _ _ _
  have hge : |x' - x| ≤ |x' - r₁| + |x - r₁| := by
    have := abs_sub_le x' r₁ x
    rwa [abs_sub_comm r₁ x] at this
  have hupper := hypot_le_add (x' - r₁) (y - r₂)
  have hlower := abs_fst_le_hypot (x' - r₁) (y - r₂)
  refine ⟨?_, ?_⟩
  · rw [kRobotClearance]
    norm_num at hx hy ⊢
    linarith
  · norm_num at hx hy ⊢
    linarith

theorem hypot_comm (x y : ℝ) : hypot x y = hypot y x := by
  rw [hypot, hypot, add_comm]

/-- A wall that is too near has a point where a mover is pushed from: if the nearest point is the
robot's own, one half a metre further along the wall. -/
theorem exists_near_onWall {half : ℝ} {robot p : ℝ × ℝ} (hhalf : half ≤ 4)
    (hwall : OnWall (innerLo half) (innerHi half) robot p)
    (hnear : hypot (p.1 - robot.1) (p.2 - robot.2) < kRobotClearance) :
    ∃ q, OnWall (innerLo half) (innerHi half) robot q ∧
      hypot (q.1 - robot.1) (q.2 - robot.2) < kRobotClearance ∧
      1e-3 < hypot (q.1 - robot.1) (q.2 - robot.2) := by
  obtain hfar | hat := lt_or_ge 1e-3 (hypot (p.1 - robot.1) (p.2 - robot.2))
  · exact ⟨p, hwall, hnear, hfar⟩
  · obtain ⟨hx, hy⟩ := mem_box.mp hwall.1
    obtain hahead | hahead := hwall.2
    · obtain ⟨y', hy', hshift⟩ := exists_shift hy (by simp only [innerLo, innerHi]; linarith)
      refine ⟨(p.1, y'), ⟨mem_box.mpr ⟨hx, hy'⟩, .inl hahead⟩, ?_⟩
      rw [hypot_comm] at hat
      rw [hypot_comm]
      exact near_of_shift hat hshift
    · obtain ⟨x', hx', hshift⟩ := exists_shift hx (by simp only [innerLo, innerHi]; linarith)
      exact ⟨(x', p.2), ⟨mem_box.mpr ⟨hx', hy⟩, .inr hahead⟩, near_of_shift hat hshift⟩

/-- A mover that stands still inside is not moved. -/
theorem MovingBox.bounce_still {x y half : ℝ} (h : (⟨x, y, half, 0, 0⟩ : MovingBox ℝ).Inside)
    (dt : ℝ) : (⟨x, y, half, 0, 0⟩ : MovingBox ℝ).bounce dt = ⟨x, y, half, 0, 0⟩ := by
  obtain ⟨hlo, hhi, hy⟩ := h
  obtain ⟨hlo', hhi'⟩ := abs_le.mp hy
  simp only [bounce, reflect, zero_mul, add_zero, if_neg (not_lt.mpr hlo),
    if_neg (not_lt.mpr hhi), if_neg (not_lt.mpr hlo'), if_neg (not_lt.mpr hhi')]

/-- **The robot is clear exactly when there is room for every mover**, wherever it is and
whatever its velocity. If it is not, a mover that stands still next to the wall has none. -/
theorem clear_iff {half : ℝ} (hhalf : half ≤ 4) (robot : ℝ × ℝ) :
    Clear half robot ↔
      ∀ m : MovingBox ℝ, m.half = half → m.Inside → ∀ dt, m.Roomy ⟨dt, robot⟩ := by
  refine ⟨?_, ?_⟩
  · rintro hclear m rfl - dt -
    exact Clear.not_wallBehind hclear
  · intro hroomy p hwall
    by_contra hnear
    obtain ⟨q, hq, hclose⟩ := exists_near_onWall hhalf hwall (not_le.mp hnear)
    have hin : (⟨q.1, q.2, half, 0, 0⟩ : MovingBox ℝ).Inside := MovingBox.inside_iff.mpr hq.1
    have hroom := hroomy _ rfl hin 0
    rw [MovingBox.Roomy, MovingBox.bounce_still hin] at hroom
    refine hroom hclose ⟨1, le_rfl, ?_, ?_⟩
    · rw [one_mul]
      exact hclose.1
    · rw [MovingBox.center, ray_one]
      exact hq

/-! ## Runs

All movers have the same size and speed throughout, so whether there is room is the only question
that is left at an update. -/

theorem speed_polar (v a : ℝ) : hypot (v * CMath.cos a) (v * CMath.sin a) = |v| := by
  rw [hypot, CMath.sqrt_real, CMath.cos_real, CMath.sin_real, ← Real.sqrt_mul_self_eq_abs]
  refine congrArg _ ?_
  linear_combination v * v * Real.sin_sq_add_cos_sq a

/-- What is spawned: movers of one size and speed, inside the box. By induction on the rounds. -/
theorem spawnMovers_spec (p : SceneParams ℝ) (draw : Nat → Draw ℝ) :
    ∀ m ∈ spawnMovers p draw, m.half = 0.3 ∧ m.speed = |p.moverSpeed| ∧ m.Inside := by
  rw [spawnMovers]
  refine List.foldlRecOn (motive := fun movers : List (MovingBox ℝ) =>
    ∀ m ∈ movers, m.half = 0.3 ∧ m.speed = |p.moverSpeed| ∧ m.Inside) _ _ (List.forall_mem_nil _) ?_
  intro movers hmovers guard _
  simp only [spawnRound]
  split_ifs
  · exact hmovers
  · rw [List.forall_mem_append, List.forall_mem_singleton]
    obtain ⟨hxlo, hxhi⟩ := (draw guard).x_mem
    refine ⟨hmovers, rfl, speed_polar p.moverSpeed (draw guard).heading, ?_, ?_, ?_⟩
    · norm_num
      linarith
    · norm_num
      linarith
    · norm_num
      exact (abs_le.mpr (draw guard).y_mem).trans (by norm_num)
  · exact hmovers

namespace SimulatedScene

variable {p : SceneParams ℝ} {s : SimulatedScene ℝ} {t : Tick ℝ}

theorem update_speeds (s : SimulatedScene ℝ) (t : Tick ℝ) :
    (s.update t).movers.map MovingBox.speed = s.movers.map MovingBox.speed := by
  rw [update, List.map_map]
  refine List.map_congr_left fun m _ => ?_
  rw [Function.comp_apply, MovingBox.speed_deflect, MovingBox.speed_bounce]

/-- **Speeds never change**: a mover that is turned back has its direction reflected, and no rule
touches its speed. -/
theorem run_speeds (s : SimulatedScene ℝ) (ticks : List (Tick ℝ)) :
    (s.run ticks).movers.map MovingBox.speed = s.movers.map MovingBox.speed := by
  induction ticks generalizing s with
  | nil => rfl
  | cons t ts ih => exact (ih (s.update t)).trans (update_speeds s t)

/-- What all movers of a scene are like: of the size and the speed that they were spawned with. -/
def Uniform (p : SceneParams ℝ) (s : SimulatedScene ℝ) : Prop :=
  ∀ m ∈ s.movers, m.half = 0.3 ∧ m.speed = |p.moverSpeed|

theorem Uniform.update (h : s.Uniform p) (t : Tick ℝ) : (s.update t).Uniform p := by
  intro m hm
  obtain ⟨m₀, hm₀, rfl⟩ := List.mem_map.mp hm
  rw [MovingBox.half_deflect, MovingBox.half_bounce, MovingBox.speed_deflect,
    MovingBox.speed_bounce]
  exact h m₀ hm₀

/-- The walls are no obstacle to staying inside: it is the push alone that can take a mover out. -/
theorem bounce_inside {m : MovingBox ℝ} (ht : p.Short t) (hhalf : m.half = 0.3)
    (hspeed : m.speed = |p.moverSpeed|) (hin : m.Inside) : (m.bounce t.dt).Inside := by
  have hway : m.speed * |t.dt| ≤ 2 * (5 - 0.3) := by
    have habs : |(|p.moverSpeed| * t.dt)| = |p.moverSpeed| * |t.dt| := by
      rw [abs_mul, abs_abs]
    rw [hspeed, ← habs, abs_of_nonneg ht.1]
    exact ht.2
  have hstep : ∀ v, |v| ≤ m.speed → |v * t.dt| ≤ 2 * (5 - 0.3) := by
    intro v hv
    rw [abs_mul]
    exact (mul_le_mul_of_nonneg_right hv (abs_nonneg _)).trans hway
  refine hin.bounce ?_ ?_
  · rw [hhalf]
    exact (hstep m.vx (abs_fst_le_hypot _ _)).trans (by norm_num)
  · rw [hhalf]
    exact hstep m.vy (abs_snd_le_hypot _ _)

theorem update_inside_iff (h : s.Uniform p) (ht : p.Short t) (hin : ∀ m ∈ s.movers, m.Inside) :
    (∀ m ∈ (s.update t).movers, m.Inside) ↔ ∀ m ∈ s.movers, m.Roomy t := by
  rw [update, List.forall_mem_map]
  refine forall₂_congr fun m hm => ?_
  obtain ⟨hhalf, hspeed⟩ := h m hm
  exact MovingBox.inside_deflect_iff (bounce_inside ht hhalf hspeed (hin m hm))

theorem keepsInside_iff_allRoomy {ticks : List (Tick ℝ)} (h : s.Uniform p)
    (hticks : ∀ t ∈ ticks, p.Short t) (hin : ∀ m ∈ s.movers, m.Inside) :
    s.KeepsInside ticks ↔ s.AllRoomy ticks := by
  induction ticks generalizing s with
  | nil => exact Iff.rfl
  | cons t ts ih =>
    obtain ⟨ht, hts⟩ := List.forall_mem_cons.mp hticks
    rw [KeepsInside, AllRoomy, ← update_inside_iff h ht hin]
    exact and_congr_right fun hin' => ih (h.update t) hts hin'

/-- Clear robots leave room, wherever the movers are. -/
theorem allRoomy_of_clear {ticks : List (Tick ℝ)} (h : s.Uniform p)
    (hclear : ∀ t ∈ ticks, Clear 0.3 t.robot) : s.AllRoomy ticks := by
  induction ticks generalizing s with
  | nil => trivial
  | cons t ts ih =>
    obtain ⟨ht, hts⟩ := List.forall_mem_cons.mp hclear
    refine ⟨fun m hm _ => ?_, ih (h.update t) hts⟩
    refine Clear.not_wallBehind ?_
    rw [MovingBox.half_bounce, (h m hm).1]
    exact ht

theorem makeScene_spec (p : SceneParams ℝ) (draw : Nat → Draw ℝ) :
    (makeScene p draw).Uniform p ∧ ∀ m ∈ (makeScene p draw).movers, m.Inside := by
  have hspec := spawnMovers_spec p draw
  simp only [Uniform, makeScene]
  exact ⟨fun m hm => ⟨(hspec m hm).1, (hspec m hm).2.1⟩, fun m hm => (hspec m hm).2.2⟩

/-- **Where the movers stay**: their speeds never change, and they are inside after every update
exactly when there is room at every update, as there is when the robot is clear. -/
theorem keepsInside_iff (p : SceneParams ℝ) (draw : Nat → Draw ℝ) {ticks : List (Tick ℝ)}
    (hticks : ∀ t ∈ ticks, p.Short t) :
    ((makeScene p draw).run ticks).movers.map MovingBox.speed =
        (makeScene p draw).movers.map MovingBox.speed ∧
      ((makeScene p draw).KeepsInside ticks ↔ (makeScene p draw).AllRoomy ticks) ∧
      ((∀ t ∈ ticks, Clear 0.3 t.robot) → (makeScene p draw).KeepsInside ticks) := by
  obtain ⟨huniform, hin⟩ := makeScene_spec p draw
  have hiff := keepsInside_iff_allRoomy huniform hticks hin
  exact ⟨run_speeds _ _, hiff, fun hclear => hiff.mpr (allRoomy_of_clear huniform hclear)⟩

/-- Without a robot the movers stay inside, in any run of short ticks. -/
theorem keepsInside_absent {ticks : List (Tick ℝ)} (h : s.Uniform p)
    (hticks : ∀ t ∈ ticks, p.Short t ∧ t = Tick.absent t.dt) (hin : ∀ m ∈ s.movers, m.Inside) :
    s.KeepsInside ticks := by
  refine (keepsInside_iff_allRoomy h (fun t ht => (hticks t ht).1) hin).mpr
    (allRoomy_of_clear h fun t ht q hwall => ?_)
  have hx := (mem_box.mp hwall.1).1.2
  rw [(hticks t ht).2]
  refine le_trans ?_ ((neg_le_abs _).trans (abs_fst_le_hypot _ _))
  simp only [innerHi, Tick.absent, kRobotClearance] at hx ⊢
  norm_num at hx ⊢
  linarith

end SimulatedScene

/-! ## A mover near a wall

One mover is drawn ten centimetres in front of the wall that holds its centre, and the robot
stands just beside it. -/

/-- Once there are enough movers the rounds do nothing, so it does not matter how many of them
are left. -/
theorem foldl_spawnRound {p : SceneParams ℝ} {draw : Nat → Draw ℝ} {movers : List (MovingBox ℝ)}
    (h : ¬ movers.length < p.movers) (rounds : List Nat) :
    rounds.foldl (spawnRound p draw) movers = movers := by
  induction rounds with
  | nil => rfl
  | cons guard rounds ih => rw [List.foldl_cons, spawnRound, if_neg h, ih]

/-- A single mover whose first draw is not rejected. -/
theorem spawnMovers_one {p : SceneParams ℝ} {draw : Nat → Draw ℝ} (hp : p.movers = 1)
    (hfar : 3 ≤ hypot ((draw 0).x - 2) ((draw 0).y - 0)) :
    spawnMovers p draw =
      [⟨(draw 0).x, (draw 0).y, 0.3, p.moverSpeed * CMath.cos (draw 0).heading,
        p.moverSpeed * CMath.sin (draw 0).heading⟩] := by
  have hfirst : spawnRound p draw [] 0 =
      [⟨(draw 0).x, (draw 0).y, 0.3, p.moverSpeed * CMath.cos (draw 0).heading,
        p.moverSpeed * CMath.sin (draw 0).heading⟩] := by
    have hroom : (([] : List (MovingBox ℝ)).length : Int) < p.movers := by
      rw [hp]
      exact Int.zero_lt_one
    rw [spawnRound, if_pos hroom, if_neg (not_lt.mpr hfar), List.nil_append]
  rw [spawnMovers, List.range_succ_eq_map, List.foldl_cons, hfirst]
  refine foldl_spawnRound ?_ _
  rw [hp]
  exact lt_irrefl _

/-- One mover at the default speed, near the north wall. -/
noncomputable def northParams : SceneParams ℝ := { movers := 1 }

noncomputable def northDraw (_ : Nat) : Draw ℝ where
  x := 10
  y := 3.9
  heading := 0
  x_mem := by norm_num
  y_mem := by norm_num

theorem north_movers :
    (makeScene northParams northDraw).movers =
      [⟨10, 3.9, 0.3, 0.6 * CMath.cos 0, 0.6 * CMath.sin 0⟩] := by
  have hfar : 3 ≤ hypot ((northDraw 0).x - 2) ((northDraw 0).y - 0) := by
    refine le_trans ?_ ((le_abs_self _).trans (abs_fst_le_hypot _ _))
    norm_num [northDraw]
  simp only [makeScene]
  exact spawnMovers_one (p := northParams) rfl hfar

/-- Where the mover is after its first step. -/
theorem north_bounce :
    (⟨10, 3.9, 0.3, 0.6 * CMath.cos 0, 0.6 * CMath.sin 0⟩ : MovingBox ℝ).bounce 0.05 =
      ⟨10.03, 3.9, 0.3, 0.6, 0⟩ := by
  simp only [MovingBox.bounce, reflect, CMath.cos_real, CMath.sin_real, Real.cos_zero,
    Real.sin_zero]
  norm_num

theorem north_short (robot : ℝ × ℝ) : northParams.Short ⟨0.05, robot⟩ := by
  norm_num [SceneParams.Short, northParams]

theorem keepsInside_iff_north :
    ((makeScene northParams northDraw).run [⟨0.05, (10.03, 3.8)⟩]).movers.map MovingBox.speed =
        (makeScene northParams northDraw).movers.map MovingBox.speed ∧
      ((makeScene northParams northDraw).KeepsInside [⟨0.05, (10.03, 3.8)⟩] ↔
        (makeScene northParams northDraw).AllRoomy [⟨0.05, (10.03, 3.8)⟩]) ∧
      ((∀ t ∈ [(⟨0.05, (10.03, 3.8)⟩ : Tick ℝ)], Clear 0.3 t.robot) →
        (makeScene northParams northDraw).KeepsInside [⟨0.05, (10.03, 3.8)⟩]) :=
  SimulatedScene.keepsInside_iff northParams northDraw
    (List.forall_mem_singleton.mpr (north_short _))

/-- From a robot at `(10.03, 3.8)` it is pushed through the wall. -/
theorem north_pushed_out :
    northParams.Short ⟨0.05, (10.03, 3.8)⟩ ∧
      ¬ (makeScene northParams northDraw).KeepsInside [⟨0.05, (10.03, 3.8)⟩] := by
  refine ⟨north_short _, ?_⟩
  rintro ⟨hinside, -⟩
  rw [SimulatedScene.update, north_movers, List.map_singleton, List.forall_mem_singleton,
    north_bounce] at hinside
  have hin : (⟨10.03, 3.9, 0.3, 0.6, 0⟩ : MovingBox ℝ).Inside := by
    norm_num [MovingBox.Inside, abs_le]
  have hgap : hypot (10.03 - 10.03) (3.9 - 3.8) = (0.1 : ℝ) := by
    rw [hypot, CMath.sqrt_real, sub_self, mul_zero, zero_add, Real.sqrt_mul_self (by norm_num)]
    norm_num
  refine (MovingBox.inside_deflect_iff hin).mp hinside ?_ ⟨9, by norm_num, ?_, ?_⟩
  · simp only [MovingBox.Near, hgap, kRobotClearance]
    norm_num
  · simp only [hgap, kRobotClearance]
    norm_num
  · norm_num [OnWall, Ahead, ray, along, MovingBox.center, innerLo, innerHi]

end AmrFramework.Simulation
