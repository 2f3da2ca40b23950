import AmrFramework.IeeeGuard
import AmrFramework.SmootherLimits
import Mathlib.Data.List.FinRange

/-!
# The differential drive

The `ros2_control` plugin with its simulated wheels. `write` clamps the commanded velocity of
each wheel, and `read` lets the wheel follow it at a bounded rate. A command is whatever some
controller left in the memory of the framework, which starts as `nan`, and the two limits are
whatever `std::stod` makes of a parameter: none of them is checked.

A clamp lets `nan` through and has no order between its bounds when the limit is negative. Where
neither happens the wheels stay in their envelope over every run (`keepsEnvelope_iff`), as long as
the numbers are so far from the largest `double` that no sum and no product overflows. Overflow
itself is modelled: beyond the range a position, or the way to a target, is infinite.
-/

namespace AmrFramework.Hal

universe u

open Ieee (fin inf nan)
open Execution (clamp_fin add_clamp_eq_approach)
open Approach

variable {K : Type u}

section

variable [Field K] [LinearOrder K]

/-- The least magnitude that is infinite as a `double`: half a unit in the last place above the
largest finite one. -/
def doubleOverflow : K := 2 ^ 1024 - 2 ^ 970

/-- A result as a `double`: exact, unless it is too large, and then infinite. -/
def toDouble : Ieee K → Ieee K := Ieee.overflow doubleOverflow

end

/-- `kWheels`. -/
def kWheels : Nat := 2

/-- `hardware_interface::ComponentInfo`, with the names of the interfaces. -/
structure JointInfo where
  name : String
  stateInterfaces : List String
  commandInterfaces : List String

/-- `hardware_interface::HardwareInfo`. -/
structure HardwareInfo where
  joints : List JointInfo
  hardwareParameters : String → Option String

/-- The data members of `DiffDriveSystem`, and what the framework keeps for it: the interfaces
are maps from names to numbers, and every number may be infinite or not a number at all. -/
structure DiffDriveSystem (K : Type u) [Field K] : Type u where
  jointName : Fin kWheels → String
  wheelPos : Fin kWheels → Ieee K := fun _ => fin 0
  wheelVel : Fin kWheels → Ieee K := fun _ => fin 0
  wheelTarget : Fin kWheels → Ieee K := fun _ => fin 0
  maxWheelVel : Ieee K := fin 20.0
  cmdAccel : Ieee K := fin 40.0
  /-- the state interfaces that have been set -/
  states : String → Option (Ieee K) := fun _ => none
  /-- the command interfaces -/
  commands : String → Ieee K := fun _ => nan

/-! ## Initialization

`on_init` checks the joints and their interfaces, and reads the two limits. What it does not
check is what the limits are. -/

/-- Why `on_init` returns `ERROR`. -/
inductive InitError
  /-- `SystemInterface::on_init` does -/
  | base
  | joints (given : Nat)
  | interfaces (joint : String)
  | parameter (key value : String)
  deriving DecidableEq

/-- What is logged, word for word. The error of the base class is logged by the framework. -/
def InitError.text : InitError → Option String
  | .base => none
  | .joints given =>
    some ("DiffDriveSystem 期望 " ++ toString kWheels ++ " 个关节（左/右轮），URDF 给了 " ++
      toString given ++ " 个")
  | .interfaces joint =>
    some ("关节 '" ++ joint ++ "' 接口声明不完整：需要 position/velocity 状态 + velocity 命令")
  | .parameter key value => some ("硬件参数 " ++ key ++ "='" ++ value ++ "' 不是数字")

/-- `has_interface`. -/
def hasInterface (ifaces : List String) (name : String) : Bool := ifaces.any (· == name)

/-- The interfaces that `on_init` asks of a joint. -/
def JointInfo.Declared (j : JointInfo) : Prop :=
  hasInterface j.stateInterfaces "position" ∧ hasInterface j.stateInterfaces "velocity" ∧
    hasInterface j.commandInterfaces "velocity"

instance : DecidablePred JointInfo.Declared := fun _ => inferInstanceAs (Decidable (_ ∧ _))

/-- A hardware parameter, or else its default; `stod` is `std::stod`, which is `none` where it
throws. It may return any number, the special values included. -/
def HardwareInfo.parameter (info : HardwareInfo) (stod : String → Option (Ieee K)) (key : String)
    (default : Ieee K) : Except InitError (Ieee K) :=
  match info.hardwareParameters key with
  | none => .ok default
  | some value =>
    match stod value with
    | none => .error (.parameter key value)
    | some out => .ok out

section

variable [Field K]

/-- `on_init`, after `SystemInterface::on_init`. The checks come in the order of the source, and
the first one that fails gives the error. -/
def onInit (base : Bool) (stod : String → Option (Ieee K)) (info : HardwareInfo) :
    Except InitError (DiffDriveSystem K) :=
  if ¬ base then .error .base
  else if hjoints : info.joints.length = kWheels then
    match info.joints.find? fun j => ¬ j.Declared with
    | some j => .error (.interfaces j.name)
    | none => do
      let system : DiffDriveSystem K :=
        { jointName := fun i => (info.joints.get (i.cast hjoints.symm)).name }
      let maxWheelVel ← info.parameter stod "max_wheel_vel" system.maxWheelVel
      let cmdAccel ← info.parameter stod "cmd_accel" system.cmdAccel
      .ok { system with maxWheelVel, cmdAccel }
  else .error (.joints info.joints.length)

namespace DiffDriveSystem

variable (s : DiffDriveSystem K)

/-! ## The callbacks

The members are of `double`, with the infinities and `nan`; every sum and every product is
rounded to what a `double` can hold, as far as its range goes. Within the range numbers are
exact. -/

/-- The calls of `set_state`, the same in `on_activate` and in `read`: position and velocity of
each wheel under their interface names. -/
def published : String → Option (Ieee K) :=
  (List.finRange kWheels).foldl (fun states i =>
    Function.update (Function.update states (s.jointName i ++ "/" ++ "position")
      (some (s.wheelPos i))) (s.jointName i ++ "/" ++ "velocity") (some (s.wheelVel i))) s.states

/-- `on_activate`. -/
def onActivate : DiffDriveSystem K :=
  { s with
    states := s.published
    commands := (List.finRange kWheels).foldl (fun commands i =>
      Function.update commands (s.jointName i ++ "/" ++ "velocity") (s.wheelVel i)) s.commands
    wheelTarget := s.wheelVel }

/-- `on_deactivate`. -/
def onDeactivate : DiffDriveSystem K := { s with wheelTarget := fun _ => fin 0 }

variable [LinearOrder K]

/-- The velocity of a wheel after `read`. The bounds of the clamp are products in `double`, so
each of them may be infinite, or not a number. -/
def follow (dt : K) (i : Fin kWheels) : Ieee K :=
  let dv := toDouble (s.wheelTarget i - s.wheelVel i)
  let dvClamped := Ieee.clamp dv (toDouble (-s.cmdAccel * fin dt)) (toDouble (s.cmdAccel * fin dt))
  toDouble (s.wheelVel i + dvClamped)

/-- `read`. -/
def read (dt : K) : DiffDriveSystem K :=
  let moved : DiffDriveSystem K :=
    { s with
      wheelVel := s.follow dt
      wheelPos := fun i => toDouble (s.wheelPos i + toDouble (s.follow dt i * fin dt)) }
  { moved with states := moved.published }

/-- `write`. -/
def write : DiffDriveSystem K :=
  { s with
    wheelTarget := fun i =>
      let cmd := s.commands (s.jointName i ++ "/" ++ "velocity")
      Ieee.clamp cmd (-s.maxWheelVel) s.maxWheelVel }

/-! ## Runs

A run is any sequence of the callbacks, of controllers writing commands, and of cycles of any
period that is not negative. The condition of an event is about the state that it finds; what a
read must not do is overflow, and that is asked of the run as a whole. -/

end DiffDriveSystem

/-- What the framework and the controllers do, in any order. Nothing ties a read to a write, and
a controller may set any interface to any number. -/
inductive Event (K : Type u) [Field K] [LinearOrder K] : Type u
  | activate
  | deactivate
  | write
  /-- the period of the cycle -/
  | read (dt : { dt : K // 0 ≤ dt })
  /-- a controller sets a command interface -/
  | command (name : String) (v : Ieee K)

namespace DiffDriveSystem

variable [LinearOrder K] (s : DiffDriveSystem K)

def step : Event K → DiffDriveSystem K
  | .activate => s.onActivate
  | .deactivate => s.onDeactivate
  | .write => s.write
  | .read dt => s.read dt
  | .command name v => { s with commands := Function.update s.commands name v }

/-- The wheels are as they should be, and so is what is known of them: positions and speeds are
finite, no speed exceeds the limit, and every state interface that was set holds a finite number. -/
structure InEnvelope : Prop where
  pos : ∀ i, (s.wheelPos i).IsFinite
  vel : ∀ i, (s.wheelVel i).IsFinite
  limit : ∀ i, Ieee.abs (s.wheelVel i) ≤ Ieee.abs s.maxWheelVel
  states : ∀ name, ∀ v ∈ s.states name, v.IsFinite

/-- What is asked of an event: a read changes a velocity by no more than the acceleration allows,
and the bounds of a clamp are in order. -/
def Gentle : Event K → Prop
  | .read dt =>
    (∀ i, Ieee.abs ((s.read dt).wheelVel i - s.wheelVel i) ≤ Ieee.abs s.cmdAccel * fin dt.1) ∧
      toDouble (-s.cmdAccel * fin dt.1) ≤ toDouble (s.cmdAccel * fin dt.1)
  | .write => -s.maxWheelVel ≤ s.maxWheelVel
  | _ => True

/-- Along a run the wheels stay in the envelope. -/
def KeepsEnvelope (s : DiffDriveSystem K) : List (Event K) → Prop
  | [] => s.InEnvelope
  | e :: es => s.InEnvelope ∧ s.Gentle e ∧ (s.step e).KeepsEnvelope es

/-- The wheels may be read: the acceleration is a bound for the time `dt`, and every wheel has a
target that it can be moved to. An infinite target will do, as the rate is finite then. -/
structure Readable (dt : K) : Prop where
  accel : 0 < dt → fin 0 ≤ s.cmdAccel
  /-- an infinite bound is none where no time has passed -/
  accel_of_zero : dt = 0 → s.cmdAccel.IsFinite
  target : ∀ i, s.wheelTarget i ≠ nan
  /-- an infinite target is only approached at a finite rate -/
  near : ∀ i, s.cmdAccel.IsFinite ∨ (s.wheelTarget i).IsFinite

/-- When an event is harmless, by the state before it. Targets that are not a number are harmless
until they are read. -/
def Harmless : Event K → Prop
  | .read dt => s.Readable dt.1
  | .write => fin 0 ≤ s.maxWheelVel
  | _ => True

/-- All events of a run are. -/
def AllHarmless (s : DiffDriveSystem K) : List (Event K) → Prop
  | [] => True
  | e :: es => s.Harmless e ∧ (s.step e).AllHarmless es

/-- A bound for the speed of a wheel after a read: it moves towards its target, and if that is
infinite as far as the rate allows. -/
def speedBound (dt : K) (i : Fin kWheels) : Ieee K :=
  match s.wheelTarget i with
  | .inf _ => Ieee.abs (s.wheelVel i) + Ieee.abs s.cmdAccel * fin dt
  | target => Ieee.abs (s.wheelVel i) + Ieee.abs target

/-- A read cannot overflow: at this speed no velocity does, and no position. The speed is that of
the velocity and the target together, which bounds anything between the two. -/
def ReadInRange (dt : K) : Prop :=
  ∀ i, toDouble (s.speedBound dt i) = s.speedBound dt i ∧
    toDouble (Ieee.abs (s.wheelPos i) + s.speedBound dt i * fin dt) =
      Ieee.abs (s.wheelPos i) + s.speedBound dt i * fin dt

/-- No read of a run can. The condition is on each state that the run goes through. -/
def AllInRange (s : DiffDriveSystem K) : List (Event K) → Prop
  | [] => True
  | .read dt :: es => s.ReadInRange dt.1 ∧ (s.read dt).AllInRange es
  | e :: es => (s.step e).AllInRange es

/-- The targets are within the limit, if they are numbers. It is what `write` leaves behind, and
what `on_activate` and `on_deactivate` do: the one keeps the wheels at the velocity they have,
the other stops them. -/
def TargetsLimited : Prop :=
  ∀ i, s.wheelTarget i ≠ nan → Ieee.abs (s.wheelTarget i) ≤ Ieee.abs s.maxWheelVel

/-! ## What a read does

By what the target is: a number, an infinity with a finite rate, or any number with an infinite
rate. In each of these the new velocity is a number that can be named, and otherwise it is none. -/

variable [IsStrictOrderedRing K] {s : DiffDriveSystem K} {dt : K} {i : Fin kWheels} {v : K}

/-- The two bounds of the clamp are in order when the acceleration is not negative, or no time
passes. -/
theorem ordered_iff (accel : Ieee K) (hdt : 0 ≤ dt) :
    toDouble (-accel * fin dt) ≤ toDouble (accel * fin dt) ↔
      (0 < dt → fin 0 ≤ accel) ∧ (dt = 0 → accel.IsFinite) := by
  cases accel with
  | nan =>
    obtain rfl | hpos := hdt.eq_or_lt
    · simp [toDouble]
    · simp [toDouble, hpos]
  | inf σ =>
    obtain rfl | hpos := hdt.eq_or_lt
    · simp [toDouble]
    · cases σ <;> simp [toDouble, Ieee.inf_mul_fin, hpos, hpos.ne']
  | fin a =>
    rw [Ieee.neg_fin, Ieee.fin_mul_fin, Ieee.fin_mul_fin, neg_mul, toDouble,
      Ieee.overflow_neg_le_iff]
    obtain rfl | hpos := hdt.eq_or_lt
    · simp
    · simp [hpos, hpos.ne']

omit [IsStrictOrderedRing K] in
theorem toDouble_of_lt {x : K} (h : |x| < doubleOverflow) : toDouble (fin x) = fin x :=
  Ieee.overflow_of_lt h

omit [IsStrictOrderedRing K] in
theorem lt_of_toDouble_eq {x : K} (h : toDouble (fin x) = fin x) : |x| < doubleOverflow := by
  have hfinite : (Ieee.overflow doubleOverflow (fin x)).IsFinite := by
    rw [← toDouble, h]
    trivial
  obtain ⟨y, hy, hlt⟩ := Ieee.overflow_isFinite.mp hfinite
  exact Ieee.fin.inj hy ▸ hlt

theorem lt_doubleOverflow {x : K} (h : x ≤ 2 ^ 53) : x < doubleOverflow := by
  have hone : (1 : K) ≤ 2 ^ 970 := one_le_pow₀ one_le_two
  have hsplit : (doubleOverflow : K) = 2 ^ 970 * (2 ^ 54 - 1) := by
    rw [doubleOverflow, mul_sub, ← pow_add, mul_one]
  have hlarge : (2 : K) ^ 53 < 2 ^ 54 - 1 := by norm_num
  rw [hsplit]
  exact h.trans_lt (hlarge.trans_le (le_mul_of_one_le_left (by norm_num) hone))

/-- A bound that overflows is none for a way that does not: neither clamps it. So the clamp may
be computed with the exact bounds. -/
theorem clamp_toDouble {d r : K} (hr : 0 ≤ r) (hd : |d| < doubleOverflow) :
    Ieee.clamp (fin d) (toDouble (fin (-r))) (toDouble (fin r)) =
      fin (AmrFramework.clamp d (-r) r) := by
  by_cases hlarge : doubleOverflow ≤ r
  · have hpos : 0 < r := (abs_nonneg d).trans_lt (hd.trans_le hlarge)
    obtain ⟨hlo, hhi⟩ := abs_lt.mp (hd.trans_le hlarge)
    rw [toDouble, Ieee.overflow_of_le (by rwa [abs_neg, abs_of_nonneg hr]),
      Ieee.overflow_of_le (by rwa [abs_of_nonneg hr]), clamp_eq hlo.le hhi.le, Ieee.clamp,
      if_neg (by simpa using hpos), if_neg (by simpa using hr)]
  · have hsmall : |r| < doubleOverflow := by
      rw [abs_of_nonneg hr]
      exact not_le.mp hlarge
    rw [toDouble_of_lt (by rwa [abs_neg]), toDouble_of_lt hsmall, clamp_fin]

/-- A wheel with a finite target: at a read in range neither its bound nor the way to the target
overflows. -/
theorem speedBound_of_fin_target {t : K} (hrange : s.ReadInRange dt) (hv : s.wheelVel i = fin v)
    (ht : s.wheelTarget i = fin t) :
    s.speedBound dt i = fin (|v| + |t|) ∧ |v| + |t| < doubleOverflow ∧
      |t - v| < doubleOverflow := by
  have hspeed : s.speedBound dt i = fin (|v| + |t|) := by
    simp [speedBound, ht, hv, Ieee.abs]
  have hin := lt_of_toDouble_eq (hspeed ▸ (hrange i).1)
  rw [abs_of_nonneg (add_nonneg (abs_nonneg v) (abs_nonneg t))] at hin
  have hway : |t - v| ≤ |v| + |t| := by
    rw [add_comm]
    exact abs_sub t v
  exact ⟨hspeed, hin, hway.trans_lt hin⟩

/-- A wheel with a finite target, at a finite rate: it approaches the target by the rate at most,
and so its speed is at most that of the velocity and the target together. -/
theorem follow_of_fin_target {a t : K} (ha : 0 ≤ a * dt) (haccel : s.cmdAccel = fin a)
    (hrange : s.ReadInRange dt) (hv : s.wheelVel i = fin v) (ht : s.wheelTarget i = fin t) :
    s.speedBound dt i = fin (|v| + |t|) ∧
      s.follow dt i = fin (approach (a * dt) (a * dt) v t) ∧
      |approach (a * dt) (a * dt) v t| ≤ |v| + |t| := by
  obtain ⟨hspeed, hin, hway⟩ := speedBound_of_fin_target hrange hv ht
  have hwithin : |approach (a * dt) (a * dt) v t| ≤ |v| + |t| := by
    have hbetween : approach (a * dt) (a * dt) v t ∈ Set.Icc (-(|v| + |t|)) (|v| + |t|) :=
      Set.uIcc_subset_Icc (abs_le.mp (le_add_of_nonneg_right (abs_nonneg t)))
        (abs_le.mp (le_add_of_nonneg_left (abs_nonneg v))) (approach_mem ha ha)
    exact abs_le.mpr hbetween
  refine ⟨hspeed, ?_, hwithin⟩
  simp only [follow, hv, ht, haccel, Ieee.neg_fin, Ieee.fin_mul_fin, Ieee.fin_sub_fin, neg_mul]
  rw [toDouble_of_lt hway, clamp_toDouble ha hway, Ieee.fin_add_fin, add_clamp_eq_approach ha,
    toDouble_of_lt (hwithin.trans_lt hin)]

/-- A wheel with an infinite target, at a finite rate: it goes the whole way that the rate
allows, in the direction of the target. -/
theorem follow_of_inf_target {a : K} {σ : Bool} (hdt : 0 ≤ dt) (ha : 0 ≤ a * dt)
    (haccel : s.cmdAccel = fin a) (hrange : s.ReadInRange dt) (hv : s.wheelVel i = fin v)
    (ht : s.wheelTarget i = inf σ) :
    s.speedBound dt i = fin (|v| + |a| * dt) ∧
      ∃ w, s.follow dt i = fin w ∧ |w - v| = a * dt ∧ |w| ≤ |v| + |a| * dt := by
  have hspeed : s.speedBound dt i = fin (|v| + |a| * dt) := by
    simp [speedBound, ht, hv, haccel, Ieee.abs]
  have hin := lt_of_toDouble_eq (hspeed ▸ (hrange i).1)
  have hrate : a * dt ≤ |a| * dt := mul_le_mul_of_nonneg_right (le_abs_self a) hdt
  rw [abs_of_nonneg (add_nonneg (abs_nonneg v) (ha.trans hrate))] at hin
  have hbound : |a * dt| < doubleOverflow := by
    rw [abs_of_nonneg ha]
    exact (hrate.trans (le_add_of_nonneg_left (abs_nonneg v))).trans_lt hin
  have hwithin : ∀ w, |w - v| = a * dt → |w| ≤ |v| + |a| * dt := by
    intro w hw
    have htriangle := abs_add_le v (w - v)
    rw [add_sub_cancel, hw] at htriangle
    exact htriangle.trans (add_le_add_right hrate _)
  refine ⟨hspeed, ?_⟩
  cases σ with
  | true =>
    have hstep : |v - a * dt - v| = a * dt := by
      rw [sub_sub_cancel_left, abs_neg, abs_of_nonneg ha]
    refine ⟨v - a * dt, ?_, hstep, hwithin _ hstep⟩
    simp only [follow, hv, ht, haccel, Ieee.neg_fin, Ieee.fin_mul_fin, Ieee.inf_sub_fin, neg_mul]
    rw [toDouble_of_lt (by rwa [abs_neg]), toDouble_of_lt hbound, toDouble, Ieee.overflow_inf,
      Ieee.clamp, if_pos (by simp), Ieee.fin_add_fin, ← sub_eq_add_neg,
      Ieee.overflow_of_lt ((hwithin _ hstep).trans_lt hin)]
  | false =>
    have hstep : |v + a * dt - v| = a * dt := by
      rw [add_sub_cancel_left, abs_of_nonneg ha]
    refine ⟨v + a * dt, ?_, hstep, hwithin _ hstep⟩
    simp only [follow, hv, ht, haccel, Ieee.neg_fin, Ieee.fin_mul_fin, Ieee.inf_sub_fin, neg_mul]
    rw [toDouble_of_lt (by rwa [abs_neg]), toDouble_of_lt hbound, toDouble, Ieee.overflow_inf,
      Ieee.clamp, if_neg (by simp), if_pos (by simp), Ieee.fin_add_fin,
      Ieee.overflow_of_lt ((hwithin _ hstep).trans_lt hin)]

/-- At an infinite rate the wheel is at its target at once, if any time has passed. If none has,
the product of the rate and the time is not a number. -/
theorem follow_of_inf_rate {t : K} (hdt : 0 < dt) (haccel : s.cmdAccel = inf false)
    (hrange : s.ReadInRange dt) (hv : s.wheelVel i = fin v) (ht : s.wheelTarget i = fin t) :
    s.speedBound dt i = fin (|v| + |t|) ∧ s.follow dt i = fin t ∧ |t| ≤ |v| + |t| := by
  obtain ⟨hspeed, hin, hway⟩ := speedBound_of_fin_target hrange hv ht
  have hwithin : |t| ≤ |v| + |t| := le_add_of_nonneg_left (abs_nonneg v)
  have hupper : toDouble (inf false * fin dt) = inf false := by
    rw [Ieee.inf_mul_fin false hdt]
    rfl
  have hlower : toDouble (-inf false * fin dt) = inf true := by
    rw [Ieee.neg_inf, Bool.not_false, Ieee.inf_mul_fin true hdt]
    rfl
  refine ⟨hspeed, ?_, hwithin⟩
  simp only [follow, hv, ht, haccel, Ieee.fin_sub_fin]
  rw [toDouble_of_lt hway, hlower, hupper, Ieee.clamp, if_neg (by simp), if_neg (by simp),
    Ieee.fin_add_fin, add_sub_cancel, toDouble_of_lt (hwithin.trans_lt hin)]

/-- A wheel that may be read gets a velocity that is as near as the acceleration asks for, no
faster than its bound, and within every limit of its velocity and its target. -/
theorem Readable.follow (h : s.Readable dt) (hdt : 0 ≤ dt) (hrange : s.ReadInRange dt)
    (hv : s.wheelVel i = fin v) :
    ∃ w b, s.follow dt i = fin w ∧ s.speedBound dt i = fin b ∧ |w| ≤ b ∧
      Ieee.abs (fin (w - v)) ≤ Ieee.abs s.cmdAccel * fin dt ∧
      ∀ m, Ieee.abs (fin v) ≤ m → Ieee.abs (s.wheelTarget i) ≤ m → Ieee.abs (fin w) ≤ m := by
  have hordered := (ordered_iff s.cmdAccel hdt).mpr ⟨h.accel, h.accel_of_zero⟩
  cases haccel : s.cmdAccel with
  | nan =>
    rw [haccel, Ieee.nan_mul] at hordered
    exact absurd hordered (Ieee.not_le_nan _)
  | inf σ =>
    have hpos : 0 < dt := by
      refine hdt.lt_of_ne fun hzero => ?_
      have hfinite := h.accel_of_zero hzero.symm
      rw [haccel] at hfinite
      exact hfinite
    have hσ : σ = false := by
      have hle := h.accel hpos
      rwa [haccel] at hle
    subst hσ
    obtain ⟨t, ht⟩ := Ieee.isFinite_iff.mp ((h.near i).resolve_left (by simp [haccel]))
    obtain ⟨hspeed, hw, hwithin⟩ := follow_of_inf_rate hpos haccel hrange hv ht
    refine ⟨t, _, hw, hspeed, hwithin, ?_, fun m _ hm => by rwa [ht] at hm⟩
    rw [Ieee.abs, Ieee.inf_mul_fin false hpos]
    rfl
  | fin a =>
    have ha : 0 ≤ a * dt := by
      rwa [haccel, Ieee.neg_fin, Ieee.fin_mul_fin, Ieee.fin_mul_fin, neg_mul, toDouble,
        Ieee.overflow_neg_le_iff] at hordered
    have hrate : a * dt ≤ |a| * dt := mul_le_mul_of_nonneg_right (le_abs_self a) hdt
    cases ht : s.wheelTarget i with
    | nan => exact absurd ht (h.target i)
    | inf σ =>
      obtain ⟨hspeed, w, hw, hstep, hwithin⟩ := follow_of_inf_target hdt ha haccel hrange hv ht
      refine ⟨w, _, hw, hspeed, hwithin, hstep.le.trans hrate, fun m _ hm => ?_⟩
      -- nothing but an infinity is a limit of the target
      cases m with
      | nan => exact absurd hm (Ieee.not_le_nan _)
      | inf τ => simpa [Ieee.abs] using hm
      | fin m => simp [Ieee.abs] at hm
    | fin t =>
      obtain ⟨hspeed, hw, hwithin⟩ := follow_of_fin_target ha haccel hrange hv ht
      refine ⟨_, _, hw, hspeed, hwithin, (abs_approach_sub_le ha).trans hrate, fun m hvm htm => ?_⟩
      cases m with
      | nan => exact absurd hvm (Ieee.not_le_nan _)
      | inf τ => exact hvm
      | fin m =>
        have hbetween : approach (a * dt) (a * dt) v t ∈ Set.Icc (-m) m :=
          Set.uIcc_subset_Icc (abs_le.mp hvm) (abs_le.mp htm) (approach_mem ha ha)
        exact abs_le.mpr hbetween

/-- Only such a wheel gets a finite one, if the bounds are in order: a target that is not a
number passes the clamp, and an infinite one needs a finite rate to be approached. -/
theorem of_isFinite_follow
    (hordered : toDouble (-s.cmdAccel * fin dt) ≤ toDouble (s.cmdAccel * fin dt)) (hdt : 0 ≤ dt)
    (hv : s.wheelVel i = fin v) (hfinite : (s.follow dt i).IsFinite) :
    s.wheelTarget i ≠ nan ∧ (s.cmdAccel.IsFinite ∨ (s.wheelTarget i).IsFinite) := by
  rw [follow, hv] at hfinite
  refine ⟨?_, ?_⟩
  · intro ht
    simp [ht, toDouble] at hfinite
  · by_contra hnot
    rw [not_or] at hnot
    obtain ⟨haccel, htarget⟩ := hnot
    obtain ⟨hle, hzero⟩ := (ordered_iff s.cmdAccel hdt).mp hordered
    have hpos : 0 < dt := hdt.lt_of_ne fun h => haccel (hzero h.symm)
    -- an infinite distance is not clamped by infinite bounds
    cases hA : s.cmdAccel with
    | nan => exact absurd (hA ▸ hle hpos) (Ieee.not_le_nan _)
    | fin a => simp [hA] at haccel
    | inf σ =>
      have hσ : σ = false := by simpa [hA] using hle hpos
      subst hσ
      cases ht : s.wheelTarget i with
      | nan => simp [ht, toDouble] at hfinite
      | fin t => simp [ht] at htarget
      | inf τ =>
        rw [ht, hA, Ieee.inf_sub_fin, Ieee.neg_inf, Ieee.inf_mul_fin _ hpos,
          Ieee.inf_mul_fin _ hpos] at hfinite
        cases τ <;> simp [Ieee.clamp, toDouble] at hfinite

/-- At a speed within the bound, the position does not overflow, in neither of the two roundings. -/
theorem position_of_le {p w b : K} (hdt : 0 ≤ dt) (hrange : s.ReadInRange dt)
    (hp : s.wheelPos i = fin p) (hb : s.speedBound dt i = fin b) (hw : |w| ≤ b) :
    toDouble (fin p + toDouble (fin w * fin dt)) = fin (p + w * dt) := by
  have hin := (hrange i).2
  rw [hb, hp, Ieee.abs, Ieee.fin_mul_fin, Ieee.fin_add_fin] at hin
  have hlt := (le_abs_self _).trans_lt (lt_of_toDouble_eq hin)
  have hway : |w * dt| ≤ b * dt := by
    rw [abs_mul, abs_of_nonneg hdt]
    exact mul_le_mul_of_nonneg_right hw hdt
  have hmoved : |p + w * dt| ≤ |p| + b * dt := (abs_add_le _ _).trans (add_le_add_right hway _)
  rw [Ieee.fin_mul_fin, toDouble_of_lt
    ((hway.trans (le_add_of_nonneg_left (abs_nonneg p))).trans_lt hlt), Ieee.fin_add_fin,
    toDouble_of_lt (hmoved.trans_lt hlt)]

omit [LinearOrder K] [IsStrictOrderedRing K] in
theorem published_isFinite (hpos : ∀ i, (s.wheelPos i).IsFinite)
    (hvel : ∀ i, (s.wheelVel i).IsFinite) (hstates : ∀ name, ∀ v ∈ s.states name, v.IsFinite) :
    ∀ name, ∀ v ∈ s.published name, v.IsFinite := by
  rw [published]
  refine List.foldlRecOn
    (motive := fun states : String → Option (Ieee K) => ∀ name, ∀ v ∈ states name, v.IsFinite)
    _ _ hstates ?_
  intro states ih i _ name v hmem
  rw [Function.update_apply] at hmem
  split at hmem
  · exact Option.mem_some.mp hmem ▸ hvel i
  · rw [Function.update_apply] at hmem
    split at hmem
    · exact Option.mem_some.mp hmem ▸ hpos i
    · exact ih name v hmem

/-- **When a read is as it should be.** One direction is the velocity that `Readable.follow`
gives; the other is that a velocity that is a number can have come about in no other way. -/
theorem readable_iff (hs : s.InEnvelope) (ht : s.TargetsLimited) (hdt : 0 ≤ dt)
    (hrange : s.ReadInRange dt) :
    ((∀ i, Ieee.abs ((s.read dt).wheelVel i - s.wheelVel i) ≤ Ieee.abs s.cmdAccel * fin dt) ∧
        toDouble (-s.cmdAccel * fin dt) ≤ toDouble (s.cmdAccel * fin dt)) ∧
      (s.read dt).InEnvelope ↔ s.Readable dt := by
  refine ⟨?_, ?_⟩
  · rintro ⟨⟨-, hordered⟩, henv⟩
    obtain ⟨haccel, hzero⟩ := (ordered_iff s.cmdAccel hdt).mp hordered
    have hmovable : ∀ i, s.wheelTarget i ≠ nan ∧
        (s.cmdAccel.IsFinite ∨ (s.wheelTarget i).IsFinite) := by
      intro i
      obtain ⟨v, hv⟩ := Ieee.isFinite_iff.mp (hs.vel i)
      exact of_isFinite_follow hordered hdt hv (henv.vel i)
    exact ⟨haccel, hzero, fun i => (hmovable i).1, fun i => (hmovable i).2⟩
  · intro h
    have hread : ∀ i, ((s.read dt).wheelPos i).IsFinite ∧ ((s.read dt).wheelVel i).IsFinite ∧
        Ieee.abs ((s.read dt).wheelVel i) ≤ Ieee.abs s.maxWheelVel ∧
        Ieee.abs ((s.read dt).wheelVel i - s.wheelVel i) ≤ Ieee.abs s.cmdAccel * fin dt := by
      intro i
      obtain ⟨p, hp⟩ := Ieee.isFinite_iff.mp (hs.pos i)
      obtain ⟨v, hv⟩ := Ieee.isFinite_iff.mp (hs.vel i)
      obtain ⟨w, b, hw, hb, hwithin, hstep, hlimit⟩ := h.follow hdt hrange hv
      have hvel : (s.read dt).wheelVel i = fin w := hw
      have hpos : (s.read dt).wheelPos i = fin (p + w * dt) := by
        change toDouble (s.wheelPos i + toDouble (s.follow dt i * fin dt)) = _
        rw [hp, hw, position_of_le hdt hrange hp hb hwithin]
      refine ⟨by simp [hpos], by simp [hvel], ?_, ?_⟩
      · rw [hvel]
        exact hlimit _ (hv ▸ hs.limit i) (ht i (h.target i))
      · rw [hvel, hv, Ieee.fin_sub_fin]
        exact hstep
    refine ⟨⟨fun i => (hread i).2.2.2, (ordered_iff _ hdt).mpr ⟨h.accel, h.accel_of_zero⟩⟩,
      fun i => (hread i).1, fun i => (hread i).2.1, fun i => (hread i).2.2.1, ?_⟩
    exact published_isFinite (fun i => (hread i).1) (fun i => (hread i).2.1) hs.states

/-! ## What the other events do

`write` has a clamp whose bounds are in order exactly when the limit is not negative. Activation
publishes what is there, deactivation sets the targets to zero, and commands are not looked at
before `write`. -/

/-- A clamped command is within the limit, if it is a number. -/
theorem abs_clamp_le {cmd limit : Ieee K} (hlimit : limit ≠ nan)
    (hcmd : Ieee.clamp cmd (-limit) limit ≠ nan) :
    Ieee.abs (Ieee.clamp cmd (-limit) limit) ≤ Ieee.abs limit := by
  have hself : Ieee.abs limit ≤ Ieee.abs limit := by
    cases limit with
    | nan => exact absurd rfl hlimit
    | inf σ => simp [Ieee.abs]
    | fin m => simp [Ieee.abs]
  have hneg : Ieee.abs (-limit) = Ieee.abs limit := by
    cases limit <;> simp [Ieee.abs]
  by_cases hlo : cmd < -limit
  · rw [Ieee.clamp, if_pos hlo, hneg]
    exact hself
  · by_cases hhi : limit < cmd
    · rw [Ieee.clamp, if_neg hlo, if_pos hhi]
      exact hself
    · rw [Ieee.clamp, if_neg hlo, if_neg hhi] at hcmd ⊢
      cases limit with
      | nan => exact absurd rfl hlimit
      | inf σ => cases cmd <;> simp_all [Ieee.abs]
      | fin m =>
        cases cmd with
        | nan => exact absurd rfl hcmd
        | inf σ => cases σ <;> simp at hlo hhi
        | fin c =>
          have hc : |c| ≤ m := abs_le.mpr ⟨not_lt.mp hlo, not_lt.mp hhi⟩
          exact hc.trans (le_abs_self m)

theorem abs_zero_le {limit : Ieee K} (hlimit : limit ≠ nan) :
    Ieee.abs (fin 0) ≤ Ieee.abs limit := by
  cases limit with
  | nan => exact absurd rfl hlimit
  | inf σ => simp [Ieee.abs]
  | fin m => simp [Ieee.abs]

/-- Every event leaves the targets limited. Only `write` takes them from outside, and it clamps
them. If the limit is negative the clamp has its bounds the wrong way round, which makes no
difference here. -/
theorem TargetsLimited.step (hs : s.InEnvelope) (ht : s.TargetsLimited)
    (hlimit : s.maxWheelVel ≠ nan) (e : Event K) : (s.step e).TargetsLimited := by
  cases e with
  | activate => exact fun i _ => hs.limit i
  | deactivate => exact fun _ _ => abs_zero_le hlimit
  | write => exact fun i hi => abs_clamp_le hlimit hi
  | read dt => exact ht
  | command name v => exact ht

omit [IsStrictOrderedRing K] in
theorem maxWheelVel_step (e : Event K) : (s.step e).maxWheelVel = s.maxWheelVel := by
  cases e <;> rfl

/-- **An event does what is asked of it when it is harmless**, and only then. A read is harmless
when the wheels are readable then, a write when the limit is not negative, and every other event
is. -/
theorem harmless_iff (hs : s.InEnvelope) (ht : s.TargetsLimited) (hlimit : s.maxWheelVel ≠ nan)
    (e : Event K) (hrange : s.AllInRange [e]) :
    s.Gentle e ∧ (s.step e).InEnvelope ↔ s.Harmless e := by
  cases e with
  | activate =>
    exact iff_of_true
      ⟨trivial, hs.pos, hs.vel, hs.limit, published_isFinite hs.pos hs.vel hs.states⟩ trivial
  | deactivate => exact iff_of_true ⟨trivial, hs.pos, hs.vel, hs.limit, hs.states⟩ trivial
  | write =>
    have henv : (s.step .write).InEnvelope := ⟨hs.pos, hs.vel, hs.limit, hs.states⟩
    rw [and_iff_left henv]
    change -s.maxWheelVel ≤ s.maxWheelVel ↔ fin 0 ≤ s.maxWheelVel
    cases hM : s.maxWheelVel with
    | nan => exact absurd hM hlimit
    | inf σ => cases σ <;> simp
    | fin m => simp
  | read dt => exact readable_iff hs ht dt.2 hrange.1
  | command name v => exact iff_of_true ⟨trivial, hs.pos, hs.vel, hs.limit, hs.states⟩ trivial

omit [IsStrictOrderedRing K] in
theorem KeepsEnvelope.inEnvelope {es : List (Event K)} (h : s.KeepsEnvelope es) :
    s.InEnvelope := by
  cases es with
  | nil => exact h
  | cons e es => exact h.1

omit [IsStrictOrderedRing K] in
theorem allInRange_cons (e : Event K) (es : List (Event K)) :
    s.AllInRange (e :: es) ↔ s.AllInRange [e] ∧ (s.step e).AllInRange es := by
  cases e <;> simp [AllInRange, step]

/-- A run keeps the envelope when all its events are harmless, and only then. By induction on the
events: as long as both hold, the state is in the envelope again. -/
theorem keepsEnvelope_iff_allHarmless (hs : s.InEnvelope) (ht : s.TargetsLimited)
    (hlimit : s.maxWheelVel ≠ nan) (es : List (Event K)) (hrange : s.AllInRange es) :
    s.KeepsEnvelope es ↔ s.AllHarmless es := by
  induction es generalizing s with
  | nil => exact iff_of_true hs trivial
  | cons e es ih =>
    obtain ⟨hnow, hlater⟩ := (allInRange_cons e es).mp hrange
    have hstep := harmless_iff hs ht hlimit e hnow
    have htargets := ht.step hs hlimit e
    have hlimit' : (s.step e).maxWheelVel ≠ nan := by rwa [maxWheelVel_step]
    refine ⟨?_, ?_⟩
    · rintro ⟨-, hgentle, hrest⟩
      have henv := hrest.inEnvelope
      exact ⟨hstep.mp ⟨hgentle, henv⟩, (ih henv htargets hlimit' hlater).mp hrest⟩
    · rintro ⟨hharmless, hrest⟩
      obtain ⟨hgentle, henv⟩ := hstep.mpr hharmless
      exact ⟨hs, hgentle, (ih henv htargets hlimit' hlater).mpr hrest⟩

/-! ## From the initialization on

The system that `on_init` returns is at rest and has published nothing, so it is in the envelope
if its limit is a number. -/

omit [LinearOrder K] [IsStrictOrderedRing K] in
/-- What `on_init` returns: a system at rest, with nothing published. -/
theorem eq_of_onInit {base : Bool} {stod : String → Option (Ieee K)} {info : HardwareInfo}
    (h : onInit base stod info = .ok s) :
    ∃ jointName maxWheelVel cmdAccel, s = { jointName, maxWheelVel, cmdAccel } := by
  rw [onInit] at h
  split at h
  · cases h
  · split at h
    · split at h
      · cases h
      · simp only [bind, Except.bind] at h
        split at h
        · cases h
        · split at h
          · cases h
          · cases h
            exact ⟨_, _, _, rfl⟩
    · cases h

/-- **The envelope.** Whatever the parameters are, a run in which no read can overflow keeps it
exactly when the limit of the velocity is a number and all its events are harmless. The condition
is on the state before each event, and on the event. -/
theorem keepsEnvelope_iff {base : Bool} {stod : String → Option (Ieee K)} {info : HardwareInfo}
    (h : onInit base stod info = .ok s) (es : List (Event K)) (hrange : s.AllInRange es) :
    s.KeepsEnvelope es ↔ s.maxWheelVel ≠ nan ∧ s.AllHarmless es := by
  obtain ⟨jointName, maxWheelVel, cmdAccel, rfl⟩ := eq_of_onInit h
  by_cases hlimit : maxWheelVel = nan
  · subst hlimit
    refine iff_of_false (fun hkeeps => ?_) fun hnan => hnan.1 rfl
    exact absurd (hkeeps.inEnvelope.limit ⟨0, Nat.two_pos⟩) (Ieee.not_le_nan _)
  · rw [and_iff_right hlimit]
    refine keepsEnvelope_iff_allHarmless ?_ (fun _ _ => abs_zero_le hlimit) hlimit es hrange
    exact ⟨fun _ => trivial, fun _ => trivial, fun _ => abs_zero_le hlimit, nofun⟩

/-- The two wheels of `diff_drive_ros2_control_test.urdf`. -/
def testWheels : HardwareInfo where
  joints :=
    [⟨"left_wheel_joint", ["position", "velocity"], ["velocity"]⟩,
      ⟨"right_wheel_joint", ["position", "velocity"], ["velocity"]⟩]
  hardwareParameters key :=
    if key = "max_wheel_vel" then some "20.0" else if key = "cmd_accel" then some "40.0" else none

/-- `std::stod` on the texts of that file. -/
def testNumber (text : String) : Option (Ieee ℚ) :=
  if text = "20.0" then some (fin 20.0) else if text = "40.0" then some (fin 40.0) else none

/-- The left wheel is commanded, and read. -/
theorem keepsEnvelope_testWheels :
    ∃ s : DiffDriveSystem ℚ, onInit true testNumber testWheels = .ok s ∧
      s.KeepsEnvelope [.activate, .command "left_wheel_joint/velocity" (fin 5), .write,
        .read ⟨1 / 50, by norm_num⟩] := by
  obtain ⟨s, hs⟩ : ∃ s : DiffDriveSystem ℚ, onInit true testNumber testWheels = .ok s := ⟨_, rfl⟩
  obtain ⟨s', hs'⟩ : ∃ s' : DiffDriveSystem ℚ, s' = ((s.step .activate).step
    (.command "left_wheel_joint/velocity" (fin 5))).step .write := ⟨_, rfl⟩
  have hlimits : s.maxWheelVel = fin 20.0 ∧ s'.cmdAccel = fin 40.0 := by
    cases hs
    subst hs'
    exact ⟨rfl, rfl⟩
  have hwheel : ∀ i, s'.wheelVel i = fin 0 ∧ s'.wheelPos i = fin 0 ∧
      ∃ t, s'.wheelTarget i = fin t ∧ |t| ≤ 5 := by
    cases hs
    subst hs'
    refine Fin.forall_fin_two.mpr ⟨⟨rfl, rfl, 5, ?_, by norm_num⟩, rfl, rfl, 0, ?_, by norm_num⟩
    · change Ieee.clamp (fin 5) (-fin 20.0) (fin 20.0) = fin 5
      norm_num [Ieee.clamp]
    · change Ieee.clamp (fin 0) (-fin 20.0) (fin 20.0) = fin 0
      norm_num [Ieee.clamp]
  have hsmall : ∀ x : ℚ, 0 ≤ x → x ≤ 6 → toDouble (fin x) = fin x := by
    intro x hx hle
    refine toDouble_of_lt ?_
    rw [abs_of_nonneg hx]
    exact lt_doubleOverflow (hle.trans (by norm_num))
  refine ⟨s, hs, (keepsEnvelope_iff hs _ ?_).mpr ⟨?_, ?_⟩⟩
  · have hrange : s'.ReadInRange (1 / 50) := by
      intro i
      obtain ⟨hv, hp, t, ht, hle⟩ := hwheel i
      have hspeed : s'.speedBound (1 / 50) i = fin |t| := by
        simp [speedBound, ht, hv, Ieee.abs]
      rw [hspeed, hp, Ieee.abs, abs_zero, Ieee.fin_mul_fin, Ieee.fin_add_fin]
      have hpos := abs_nonneg t
      exact ⟨hsmall _ hpos (by linarith), hsmall _ (by linarith) (by linarith)⟩
    subst hs'
    exact ⟨hrange, trivial⟩
  · rw [hlimits.1]
    simp
  · have hreadable : s'.Readable (1 / 50) := by
      refine ⟨fun _ => ?_, fun h => by norm_num at h, fun i => ?_, fun _ => .inl ?_⟩
      · rw [hlimits.2]
        norm_num
      · obtain ⟨-, -, t, ht, -⟩ := hwheel i
        rw [ht]
        simp
      · rw [hlimits.2]
        trivial
    have hwrite : fin 0 ≤ s.maxWheelVel := by
      rw [hlimits.1]
      norm_num
    subst hs'
    exact ⟨trivial, trivial, hwrite, hreadable, trivial⟩

/-- A controller that commands `nan` makes the velocity of its wheel `nan`. -/
theorem nan_command_escapes :
    ∃ s : DiffDriveSystem ℚ, onInit true testNumber testWheels = .ok s ∧
      ¬ s.KeepsEnvelope
        [.activate, .command "left_wheel_joint/velocity" nan, .write,
          .read ⟨1 / 50, by norm_num⟩] := by
  refine ⟨_, rfl, fun h => ?_⟩
  have hvel := h.2.2.2.2.2.2.2.2.vel ⟨0, Nat.two_pos⟩
  have htarget : ∀ s : DiffDriveSystem ℚ, s.wheelTarget ⟨0, Nat.two_pos⟩ = nan →
      ¬ (s.follow (1 / 50) ⟨0, Nat.two_pos⟩).IsFinite := by
    intro s hs
    simp [follow, hs, toDouble]
  exact htarget _ rfl hvel

end DiffDriveSystem

end

end AmrFramework.Hal
