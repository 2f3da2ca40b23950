import AmrFramework.IeeeGuard

/-!
# The velocity guard node

`CmdVelGuardNode` stands between a navigation stack and the base: a command to
drive forward goes through `CollisionGuard::clamp`, a reverse one is published as
it is.

The branch on the command is `in.linear.x >= 0.0`. A command that is not a number
is not, and is published unchanged like a reverse one.
-/

namespace AmrFramework.Execution

universe u

open Ieee (fin inf nan)

variable {K : Type u} [Field K] [LinearOrder K]

/-! ## The node

Everything that reaches the node is a message or a parameter: 64-bit numbers that are made
narrower on the way in. A command is converted to `float` for the guard only; what is published
for a reverse command is the message itself. -/

/-- The least magnitude that the conversion to `float` makes infinite: half a
unit in the last place above the largest finite `float`. -/
def floatOverflow : K := 2 ^ 128 - 2 ^ 103

/-- `static_cast<float>` of a `double`. -/
def toFloat : Ieee K → Ieee K := Ieee.overflow floatOverflow

/-- `geometry_msgs::msg::Vector3`. -/
structure Vector3 (K : Type u) : Type u where
  x : Ieee K
  y : Ieee K
  z : Ieee K

/-- `geometry_msgs::msg::Twist`. -/
structure Twist (K : Type u) : Type u where
  linear : Vector3 K
  angular : Vector3 K

structure CmdVelGuardNode (K : Type u) [Field K] : Type u where
  guard : IeeeGuard K
  interventions : Nat := 0

/-- The constructor, with the values of `guard_stop_dist`, `guard_safe_dist` and
`guard_min_valid_echoes`. -/
def CmdVelGuardNode.init (stopDist safeDist : Ieee K) (minValidEchoes : Int) : CmdVelGuardNode K :=
  { guard.params.stopDist := toFloat stopDist
    guard.params.safeDist := toFloat safeDist
    -- a parameter is 64 bits wide and is cast to `int`
    guard.params.minValidEchoes := minValidEchoes.bmod (2 ^ 32) }

/-- The subscription to `/scan_raw`. -/
def CmdVelGuardNode.onScan (n : CmdVelGuardNode K) (m : IeeeScan K) (now : Int) :
    CmdVelGuardNode K :=
  { n with guard := n.guard.setScan m now }

/-- The twist for a command that is not negative. -/
def CmdVelGuardNode.guarded (n : CmdVelGuardNode K) (msg : Twist K) (now : Int) :
    Twist K × IeeeGuard K :=
  let (v, guard) := n.guard.clamp (toFloat msg.linear.x) now
  (⟨{ msg.linear with x := v },
    if guard.lastStop then { msg.angular with z := fin 0 } else msg.angular⟩, guard)

/-- `on_cmd`: the twist published on `/cmd_vel`. -/
def CmdVelGuardNode.onCmd (n : CmdVelGuardNode K) (msg : Twist K) (now : Int) :
    Twist K × CmdVelGuardNode K :=
  let (out, guard) := if fin 0 ≤ msg.linear.x then n.guarded msg now else (msg, n.guard)
  let intervened := out.linear.x < msg.linear.x - fin (1 / 10 ^ 6)
  (out, ⟨guard, if intervened then n.interventions + 1 else n.interventions⟩)

/-! ## Messages in any order

The guard is in whatever state the messages before have left it in. Nothing of that matters for
the gate but whether it stops, whether something is near, and its parameters. -/

inductive CmdVelMessage (K : Type u) : Type u
  /-- on `/scan_raw` -/
  | scan (m : IeeeScan K) (now : Int)
  /-- on `/cmd_vel_raw` -/
  | cmd (m : Twist K) (now : Int)

def CmdVelGuardNode.handle (n : CmdVelGuardNode K) : CmdVelMessage K → CmdVelGuardNode K
  | .scan m now => n.onScan m now
  | .cmd m now => (n.onCmd m now).2

/-- The node after the messages, newest first. -/
def nodeAfter (start : CmdVelGuardNode K) : List (CmdVelMessage K) → CmdVelGuardNode K
  | [] => start
  | m :: ms => (nodeAfter start ms).handle m

/-- What the last gate before the base has to ensure: a finite speed, which is
the command of a reverse or what the guard made of it, and no turning on the
spot while the guard holds the robot. -/
def CmdVelGuardNode.FailSafe (n : CmdVelGuardNode K) (msg : Twist K) (now : Int) : Prop :=
  let out := (n.onCmd msg now).1
  let clamped := n.guard.clamp (toFloat msg.linear.x) now
  out.linear.x.IsFinite ∧
    ((msg.linear.x < fin 0 ∧ out.linear.x = msg.linear.x) ∨ out.linear.x = clamped.1) ∧
    (¬ msg.linear.x < fin 0 → clamped.2.lastStop = true → out.angular.z = fin 0)

/-- A number survives the conversion when it is below the limit of the format. -/
theorem toFloat_isFinite {a : Ieee K} :
    (toFloat a).IsFinite ↔ ∃ x, a = fin x ∧ |x| < floatOverflow := Ieee.overflow_isFinite

variable [IsStrictOrderedRing K]

/-! ## The node is fail-safe

Two cases for the two sides of the branch. A command that is not `>= 0.0` leaves as it came, so
all depends on whether it is a number; one that is goes through the guard. -/

variable {n : CmdVelGuardNode K} {msg : Twist K} {now : Int}

omit [IsStrictOrderedRing K] in
/-- A command that is not `>= 0.0` is published unchanged. -/
theorem onCmd_of_not_le (h : ¬ fin 0 ≤ msg.linear.x) : (n.onCmd msg now).1 = msg := by
  simp only [CmdVelGuardNode.onCmd, if_neg h]

omit [IsStrictOrderedRing K] in
theorem onCmd_of_le (h : fin 0 ≤ msg.linear.x) :
    (n.onCmd msg now).1 = (n.guarded msg now).1 := by
  simp only [CmdVelGuardNode.onCmd, if_pos h]

omit [IsStrictOrderedRing K] in
/-- A number that is not `>= 0.0` is `< 0.0`, if it is finite. -/
theorem lt_zero_of_not_le {a : Ieee K} (ha : a.IsFinite) (h : ¬ fin 0 ≤ a) : a < fin 0 := by
  obtain ⟨x, rfl⟩ := Ieee.isFinite_iff.mp ha
  exact not_le.mp h

omit [IsStrictOrderedRing K] in
/-- Unchanged, the command must be finite itself. -/
theorem failSafe_of_not_le (h : ¬ fin 0 ≤ msg.linear.x) :
    n.FailSafe msg now ↔ msg.linear.x.IsFinite := by
  rw [CmdVelGuardNode.FailSafe, onCmd_of_not_le h]
  refine ⟨fun hsafe => hsafe.1, fun hfinite => ?_⟩
  have hneg := lt_zero_of_not_le hfinite h
  exact ⟨hfinite, .inl ⟨hneg, rfl⟩, fun hnot => absurd hneg hnot⟩

/-- Guarded, the output must be. -/
theorem failSafe_of_le (hblank : n.guard.Blank) (h : fin 0 ≤ msg.linear.x) :
    n.FailSafe msg now ↔ n.guard.Stops now ∨ ((toFloat msg.linear.x).IsFinite ∧
      (n.guard.Near → n.guard.params.stopDist.IsFinite)) := by
  rw [CmdVelGuardNode.FailSafe, onCmd_of_le h, ← limit_isFinite hblank]
  refine ⟨fun hsafe => hsafe.1, fun hfinite => ⟨hfinite, .inr rfl, fun _ hstop => ?_⟩⟩
  exact congrArg Vector3.z (if_pos hstop)

omit [IsStrictOrderedRing K] in
/-- Messages keep a guard without a scan blank. -/
theorem blank_nodeAfter {start : CmdVelGuardNode K} (hstart : start.guard.Blank)
    (ms : List (CmdVelMessage K)) : (nodeAfter start ms).guard.Blank := by
  induction ms with
  | nil => exact hstart
  | cons m ms ih =>
    cases m with
    | scan m now => exact nofun
    | cmd m now =>
      by_cases h : fin 0 ≤ m.linear.x
      · simp only [nodeAfter, CmdVelGuardNode.handle, CmdVelGuardNode.onCmd, if_pos h]
        exact ih
      · simp only [nodeAfter, CmdVelGuardNode.handle, CmdVelGuardNode.onCmd, if_neg h]
        exact ih

/-- **When the gate is fail-safe**, for any parameters, any messages before and any command: for
a finite reverse, and for a command `>= 0.0` that the guard stops or that is finite as a `float`
and not slowed down by a `stop_dist` that is not finite. A command that is not a number satisfies
neither: it fails the comparison with zero, takes the way of a reverse, and is published. -/
theorem failSafe_iff (stopDist safeDist : Ieee K) (minValidEchoes : Int)
    (ms : List (CmdVelMessage K)) (msg : Twist K) (now : Int) :
    let n := nodeAfter (.init stopDist safeDist minValidEchoes) ms
    n.FailSafe msg now ↔
      (∃ x, msg.linear.x = fin x ∧ x < 0) ∨
      (fin 0 ≤ msg.linear.x ∧
        (n.guard.Stops now ∨
          ((∃ x, msg.linear.x = fin x ∧ |x| < floatOverflow) ∧
            (n.guard.Near → n.guard.params.stopDist.IsFinite)))) := by
  intro n
  have hblank : n.guard.Blank := blank_nodeAfter (fun _ => rfl) ms
  rw [← toFloat_isFinite]
  by_cases h : fin 0 ≤ msg.linear.x
  · have hpos : ¬ ∃ x, msg.linear.x = fin x ∧ x < 0 := fun ⟨x, hx, hneg⟩ => by
      rw [hx] at h
      exact not_le.mpr hneg h
    rw [failSafe_of_le hblank h, or_iff_right hpos, and_iff_right h]
  · rw [failSafe_of_not_le h, or_iff_left fun hle => h hle.1, Ieee.isFinite_iff]
    refine exists_congr fun x => ⟨fun hx => ⟨hx, ?_⟩, fun hx => hx.1⟩
    rw [hx] at h
    exact not_le.mp h

/-- A reverse is published. -/
theorem failSafe_iff_reverse :
    (nodeAfter (.init (fin 0.3) (fin 0.8) 50) []).FailSafe
      (⟨⟨fin (-1 : ℚ), fin 0, fin 0⟩, ⟨fin 0, fin 0, fin 0⟩⟩ : Twist ℚ) 5 :=
  (failSafe_iff (fin 0.3) (fin 0.8) 50 [] ⟨⟨fin (-1 : ℚ), fin 0, fin 0⟩, ⟨fin 0, fin 0, fin 0⟩⟩
    5).mpr (.inl ⟨-1, rfl, by norm_num⟩)

/-- A command that is not a number reaches the base. -/
theorem not_failSafe_nan :
    ¬ ∀ (stopDist safeDist : Ieee ℚ) (minValidEchoes : Int) (ms : List (CmdVelMessage ℚ))
      (msg : Twist ℚ) (now : Int),
      (nodeAfter (.init stopDist safeDist minValidEchoes) ms).FailSafe msg now := fun h =>
  (h (fin 0.3) (fin 0.8) 50 [] ⟨⟨nan, fin 0, fin 0⟩, ⟨fin 0, fin 0, fin 0⟩⟩ 0).1

end AmrFramework.Execution
