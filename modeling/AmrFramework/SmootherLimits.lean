import Mathlib.Algebra.Order.Archimedean.Basic
import AmrFramework.Approach
import AmrFramework.GuardLastWord

/-!
# The limits of the smoother

The smoother takes a signed speed that rises for acceleration and one that falls for
deceleration. In reverse it is the other way round, so that the two limits change places.

`run_limited_iff` says, for every sequence of ticks, which ones stay within the limits, and
that the desired twist is reached as soon as there was time enough.

Each component of the twist approaches what is desired (`Approach`), with a limit for each
direction, and the library knows when a value that does so has arrived and what happens to its
size. So all of this module is a translation of ticks into moves.
-/

namespace AmrFramework.Execution

open Approach

universe u

variable {K : Type u} [Field K]

/-- One call of the smoother: what is desired, and for how long. -/
structure SmootherTick (K : Type u) : Type u where
  desired : Twist2D K
  dt : K

/-- Positive limits. -/
structure SmootherParams.Positive [LinearOrder K] (p : SmootherParams K) : Prop where
  maxAccel : 0 < p.maxAccel
  maxDecel : 0 < p.maxDecel
  maxAngularAccel : 0 < p.maxAngularAccel

variable [LinearOrder K]

/-- The twist after one tick. -/
def SmootherParams.next (p : SmootherParams K) (last : Twist2D K) (t : SmootherTick K) :
    Twist2D K :=
  p.smooth t.desired last t.dt

/-- The twist after some ticks. -/
def SmootherParams.run (p : SmootherParams K) (start : Twist2D K) (ticks : List (SmootherTick K)) :
    Twist2D K :=
  ticks.foldl p.next start

/-- The speed is within its limits. -/
structure SmootherParams.Limited (p : SmootherParams K) (last : Twist2D K) (t : SmootherTick K) :
    Prop where
  accel : |(p.next last t).linear| ≤ |last.linear| + p.maxAccel * t.dt
  decel : |last.linear| - p.maxDecel * t.dt ≤ |(p.next last t).linear|

/-- The turn rate is within its limit, and nothing goes past what is desired. -/
structure SmootherParams.Smoothed (p : SmootherParams K) (last : Twist2D K) (t : SmootherTick K) :
    Prop where
  angular : |(p.next last t).angular - last.angular| ≤ p.maxAngularAccel * t.dt
  linear_between : (p.next last t).linear ∈ Set.uIcc last.linear t.desired.linear
  angular_between : (p.next last t).angular ∈ Set.uIcc last.angular t.desired.angular

/-- When the signed comparison does no harm: a fall is small, or still within forward motion;
a rise is small, or goes far enough beyond zero. -/
structure SmootherParams.Gentle (p : SmootherParams K) (last : Twist2D K) (t : SmootherTick K) :
    Prop where
  falling : t.desired.linear ≤ last.linear →
    min (last.linear - t.desired.linear) (p.maxDecel * t.dt) ≤
      p.maxAccel * t.dt + 2 * max last.linear 0
  rising : last.linear < t.desired.linear →
    min (t.desired.linear - last.linear) (p.maxAccel * t.dt) ≤ p.maxDecel * t.dt ∨
      0 ≤ 2 * last.linear + p.maxDecel * t.dt +
        min (t.desired.linear - last.linear) (p.maxAccel * t.dt)

/-- There was time enough to get from one twist to another, at the three rates that the
parameters allow. -/
structure SmootherParams.Enough (p : SmootherParams K) (last desired : Twist2D K) (time : K) :
    Prop where
  rise : desired.linear - last.linear ≤ p.maxAccel * time
  fall : last.linear - desired.linear ≤ p.maxDecel * time
  turn : |desired.angular - last.angular| ≤ p.maxAngularAccel * time

variable [IsStrictOrderedRing K] {p : SmootherParams K} {last : Twist2D K} {t : SmootherTick K}
variable {dt : K}

/-- The defaults are positive. -/
theorem SmootherParams.positive_default : ({} : SmootherParams K).Positive := by
  constructor <;> norm_num

/-! ## One tick

The clamp of a difference to limits of opposite signs is an approach with the same limit in both
directions; which of the two limits the code takes is known from the direction it goes in, so it
is also an approach with both of them. -/

/-- Clamping a difference is an approach. -/
theorem add_clamp_eq_approach {v d s : K} (hs : 0 ≤ s) :
    v + clamp (d - v) (-s) s = approach s s v d := by
  obtain h | h := lt_or_ge v d
  · rw [approach_of_lt h, clamp, if_neg (by linarith)]
    split_ifs with hfar
    · rw [min_eq_right hfar.le]
    · rw [min_eq_left (not_lt.mp hfar)]
  · rw [approach_of_le h, clamp]
    split_ifs with hfar hfar'
    · rw [min_eq_right (by linarith), sub_eq_add_neg]
    · linarith
    · rw [min_eq_left (by linarith)]
      ring

/-- Both components approach what is desired. -/
theorem SmootherParams.Positive.smooth_eq (hp : p.Positive) (last desired : Twist2D K)
    (hdt : 0 ≤ dt) :
    (p.smooth desired last dt).linear =
        approach (p.maxAccel * dt) (p.maxDecel * dt) last.linear desired.linear ∧
      (p.smooth desired last dt).angular =
        approach (p.maxAngularAccel * dt) (p.maxAngularAccel * dt) last.angular
          desired.angular :=
  ⟨p.smooth_linear (mul_nonneg hp.maxAccel.le hdt) (mul_nonneg hp.maxDecel.le hdt),
    add_clamp_eq_approach (mul_nonneg hp.maxAngularAccel.le hdt)⟩

/-- What holds of every tick: the limit of the turn rate, and that neither component goes past
what is desired. -/
theorem SmootherParams.Positive.smoothed (hp : p.Positive) (last : Twist2D K) (hdt : 0 < t.dt) :
    p.Smoothed last t := by
  obtain ⟨hlinear, hangular⟩ := hp.smooth_eq last t.desired hdt.le
  have haccel := mul_nonneg hp.maxAccel.le hdt.le
  have hdecel := mul_nonneg hp.maxDecel.le hdt.le
  have hturn := mul_nonneg hp.maxAngularAccel.le hdt.le
  refine ⟨?_, ?_, ?_⟩
  · rw [next, hangular]
    exact abs_approach_sub_le hturn
  · rw [next, hlinear]
    exact approach_mem haccel hdecel
  · rw [next, hangular]
    exact approach_mem hturn hturn

/-- The speed is within its limits exactly when the signed comparison does no harm. -/
theorem SmootherParams.Positive.limited_iff (hp : p.Positive) (last : Twist2D K) (hdt : 0 < t.dt) :
    p.Limited last t ↔ p.Gentle last t := by
  obtain ⟨hlinear, -⟩ := hp.smooth_eq last t.desired hdt.le
  have haccel := mul_nonneg hp.maxAccel.le hdt.le
  have hdecel := mul_nonneg hp.maxDecel.le hdt.le
  have hgrows := abs_approach_le_iff (v := last.linear) (d := t.desired.linear) haccel hdecel
  have hfalls := le_abs_approach_iff (v := last.linear) (d := t.desired.linear) haccel hdecel
  rw [← hlinear] at hgrows hfalls
  exact ⟨fun h => ⟨hgrows.mp h.accel, hfalls.mp h.decel⟩,
    fun h => ⟨hgrows.mpr h.falling, hfalls.mpr h.rising⟩⟩

/-- In forward motion it never does any. -/
theorem SmootherParams.Positive.gentle_of_forward (hp : p.Positive) (hdt : 0 < t.dt)
    (hlast : 0 ≤ last.linear) (hdesired : 0 ≤ t.desired.linear) : p.Gentle last t where
  falling hle := by
    have haccel := mul_nonneg hp.maxAccel.le hdt.le
    rw [max_eq_left hlast]
    exact (min_le_left _ _).trans (by linarith)
  rising hlt := by
    right
    have hdecel := mul_nonneg hp.maxDecel.le hdt.le
    have hmove : 0 ≤ min (t.desired.linear - last.linear) (p.maxAccel * t.dt) :=
      le_min (sub_nonneg.mpr hlt.le) (mul_nonneg hp.maxAccel.le hdt.le)
    linarith

/-! ## Many ticks

While the same twist is desired, the ticks add up, and only their total time counts. -/

/-- A constant desired twist, for some ticks. -/
def holding (desired : Twist2D K) (dts : List K) : List (SmootherTick K) :=
  dts.map fun dt => ⟨desired, dt⟩

omit [IsStrictOrderedRing K] in
/-- The components of a run towards one twist. -/
theorem SmootherParams.run_holding (p : SmootherParams K) (last desired : Twist2D K)
    (dts : List K) :
    p.run last (holding desired dts) =
      dts.foldl (fun last dt => p.next last ⟨desired, dt⟩) last :=
  List.foldl_map

/-- The desired twist is reached as soon as there was time enough. -/
theorem SmootherParams.Positive.run_holding_eq_iff (hp : p.Positive) (last desired : Twist2D K)
    {dts : List K} (hdts : ∀ dt ∈ dts, 0 < dt) :
    p.run last (holding desired dts) = desired ↔ p.Enough last desired dts.sum := by
  have hdts' : ∀ dt ∈ dts, 0 ≤ dt := fun dt hdt => (hdts dt hdt).le
  have hsum := List.sum_nonneg hdts'
  have haccel := mul_nonneg hp.maxAccel.le hsum
  have hdecel := mul_nonneg hp.maxDecel.le hsum
  have hturn := mul_nonneg hp.maxAngularAccel.le hsum
  have hlinear : (p.run last (holding desired dts)).linear =
      approach (p.maxAccel * dts.sum) (p.maxDecel * dts.sum) last.linear desired.linear := by
    rw [p.run_holding]
    exact foldl_approach (f := Twist2D.linear) hp.maxAccel.le hp.maxDecel.le
      (fun last dt hdt => (hp.smooth_eq last desired hdt).1) hdts' last
  have hangular : (p.run last (holding desired dts)).angular =
      approach (p.maxAngularAccel * dts.sum) (p.maxAngularAccel * dts.sum) last.angular
        desired.angular := by
    rw [p.run_holding]
    exact foldl_approach (f := Twist2D.angular) hp.maxAngularAccel.le hp.maxAngularAccel.le
      (fun last dt hdt => (hp.smooth_eq last desired hdt).2) hdts' last
  rw [Twist2D.ext_iff, hlinear, hangular, approach_eq_iff haccel hdecel,
    approach_eq_iff hturn hturn, ← abs_sub_le_iff]
  exact ⟨fun ⟨⟨hrise, hfall⟩, hturned⟩ => ⟨hrise, hfall, hturned⟩,
    fun ⟨hrise, hfall, hturned⟩ => ⟨⟨hrise, hfall⟩, hturned⟩⟩

section Archimedean

variable [Archimedean K]

/-- With ticks of one length there is time enough after some of them. -/
theorem SmootherParams.Positive.exists_enough (hp : p.Positive) (last desired : Twist2D K)
    (hdt : 0 < dt) : ∃ n : ℕ, p.Enough last desired (List.replicate n dt).sum := by
  have hreach : ∀ x rate : K, 0 < rate → ∃ n : ℕ, ∀ m ≥ n, x ≤ rate * (m • dt) := by
    intro x rate hrate
    obtain ⟨n, hn⟩ := Archimedean.arch x (mul_pos hrate hdt)
    refine ⟨n, fun m hm => hn.trans ?_⟩
    rw [mul_smul_comm]
    exact nsmul_le_nsmul_left (mul_pos hrate hdt).le hm
  obtain ⟨n₁, hrise⟩ := hreach (desired.linear - last.linear) _ hp.maxAccel
  obtain ⟨n₂, hfall⟩ := hreach (last.linear - desired.linear) _ hp.maxDecel
  obtain ⟨n₃, hturn⟩ := hreach |desired.angular - last.angular| _ hp.maxAngularAccel
  -- the slowest component decides
  refine ⟨max n₁ (max n₂ n₃), ?_⟩
  rw [List.sum_replicate]
  exact ⟨hrise _ (le_max_left _ _), hfall _ (le_max_of_le_right (le_max_left _ _)),
    hturn _ (le_max_of_le_right (le_max_right _ _))⟩

/-- **The limits of the smoother**, for every sequence of ticks: the turn rate is always within
its limit and nothing goes past what is desired; the speed is within its limits exactly when the
signed comparison does no harm; and a constant desired twist is reached exactly when there was
time enough, which ticks of one length always have in the end.

The first two parts are about one tick from any twist, so a run adds nothing to them; the third
is about the sum of the durations, and comes from the lists of moves of the library. -/
theorem SmootherParams.Positive.run_limited_iff (hp : p.Positive) (start : Twist2D K)
    {ticks : List (SmootherTick K)} (hticks : ∀ t ∈ ticks, 0 < t.dt) :
    (∀ before t after, ticks = before ++ t :: after →
        p.Smoothed (p.run start before) t ∧
          (p.Limited (p.run start before) t ↔ p.Gentle (p.run start before) t)) ∧
      ∀ desired : Twist2D K,
        (∀ dts : List K, (∀ dt ∈ dts, 0 < dt) →
          (p.run start (ticks ++ holding desired dts) = desired ↔
            p.Enough (p.run start ticks) desired dts.sum)) ∧
        ∀ dt : K, 0 < dt →
          ∃ n, p.run start (ticks ++ holding desired (List.replicate n dt)) = desired := by
  have happend : ∀ more, p.run start (ticks ++ more) = p.run (p.run start ticks) more :=
    fun more => List.foldl_append
  refine ⟨fun before t after hsplit => ?_, fun desired => ⟨fun dts hdts => ?_, fun dt hdt => ?_⟩⟩
  · have hdt : 0 < t.dt := hticks t (hsplit ▸ List.mem_append_right _ List.mem_cons_self)
    exact ⟨hp.smoothed _ hdt, hp.limited_iff _ hdt⟩
  · rw [happend]
    exact hp.run_holding_eq_iff _ desired hdts
  · obtain ⟨n, hn⟩ := hp.exists_enough (p.run start ticks) desired hdt
    refine ⟨n, ?_⟩
    rw [happend, hp.run_holding_eq_iff _ desired fun dt' hdt' => ?_]
    · exact hn
    · simpa [List.eq_of_mem_replicate hdt'] using hdt

end Archimedean

/-- From standstill the smoother goes forward by half a metre per second in the end. -/
theorem run_limited_forward :
    ({} : SmootherParams ℚ).Limited .zero ⟨⟨0.5, 0⟩, 0.05⟩ ∧
      ∃ n, ({} : SmootherParams ℚ).run .zero
        ([⟨⟨0.5, 0⟩, 0.05⟩] ++ holding ⟨0.5, 0⟩ (List.replicate n 0.05)) = ⟨0.5, 0⟩ := by
  have hticks : ∀ t ∈ [(⟨⟨0.5, 0⟩, 0.05⟩ : SmootherTick ℚ)], 0 < t.dt := by norm_num
  obtain ⟨htick, hreach⟩ := SmootherParams.positive_default.run_limited_iff .zero hticks
  refine ⟨(htick [] _ [] rfl).2.mpr ?_, (hreach ⟨0.5, 0⟩).2 0.05 (by norm_num)⟩
  exact SmootherParams.positive_default.gentle_of_forward (by norm_num) le_rfl (by norm_num)

/-- In reverse it accelerates as hard as it may brake. -/
theorem not_limited_reverse :
    ¬ ({} : SmootherParams ℚ).Limited .zero ⟨⟨-1, 0⟩, 0.05⟩ := by
  intro h
  have hgrows := h.accel
  norm_num [SmootherParams.next, SmootherParams.smooth, clamp, Twist2D.zero] at hgrows

/-! ## The motor controller

The controller drives forward only, and there the signed comparison does no harm. -/

/-- In every run of the motor controller the published speed stays within its limits, unless
the robot is stopped. -/
theorem published_limited [CMath K] [FloorRing K] {vfhEnabled : Bool} {guardStopDist : K}
    {guardMinValidEchoes : Int} {h : List (MotorEvent K)} {s : MotorState K}
    (hr : MotorRun vfhEnabled guardStopDist guardMinValidEchoes h s) (exec : ActiveGoal K)
    (i : ControlInput K) (hgoes : (controlTick i s.node exec).result = none)
    (hmoves : ¬ ((commanded i s.node exec).linear = 0 ∧ (commanded i s.node exec).angular = 0)) :
    (controlTick i s.node exec).published =
        ({} : SmootherParams K).next s.node.lastCmd ⟨commanded i s.node exec, 0.05⟩ ∧
      ({} : SmootherParams K).Limited s.node.lastCmd ⟨commanded i s.node exec, 0.05⟩ := by
  have hdt : (0 : K) < 0.05 := by norm_num
  have hcommanded := (commanded_mem (i := i) (controlTick_of_none hgoes).1).1
  refine ⟨?_, (SmootherParams.positive_default.limited_iff _ hdt).mpr ?_⟩
  · rw [(published_of_none hgoes).2.2.2, if_neg hmoves]
    rfl
  · exact SmootherParams.positive_default.gentle_of_forward hdt (run_lastCmd_nonneg hr) hcommanded

end AmrFramework.Execution
