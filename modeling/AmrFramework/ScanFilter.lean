import AmrFramework.FieldOfView
import AmrFramework.MotorEnvelope

/-!
# The scan filter

`scan_filter` relays `/scan_raw` of the simulated lidar to `/scan`, where the motor controller
listens. Echoes nearer than `min_valid_range` are artefacts and taken out. When fewer than six of
the eight sectors around the robot are alive, the lidar has gone blind in places, and every beam of
a dead sector becomes a wall at `dead_sector_range`: an empty sector must not look like a free one.

* what the guard sees within its stop distance, of what the filter received
  (`exists_echo_relay_iff`);
* while every scan stops the guard, so does the robot (`Halted`, for any source of the scans);
* with the filter in between: `way_while_blocked`.
-/

namespace AmrFramework.Execution

open Runs

universe u

variable {K : Type u}

/-- A `LaserScan`, as far as it is read. -/
structure ScanMessage (K : Type u) : Type u extends ScanData K where
  rangeMax : K

variable [Field K]

/-- The parameters. -/
structure ScanFilter (K : Type u) [Field K] : Type u where
  /-- nearer echoes are artefacts -/
  minValid : K := 0.35
  deadRange : K := 0.30

variable [CMath K] [LinearOrder K] [FloorRing K]

/-- The sector of a beam, from `0` to `7`. -/
def ScanData.sectorOf (scan : ScanData K) (i : Nat) : Int :=
  let degrees := scan.angle i * 180.0 / CMath.pi
  let turned := degrees + 180.0
  ⌊(turned - 360.0 * ⌊turned / 360.0⌋) / 45.0⌋

/-- There are eight sectors. -/
theorem ScanData.sectorOf_mem [IsStrictOrderedRing K] (scan : ScanData K) (i : Nat) :
    scan.sectorOf i ∈ Set.Ico 0 8 := by
  simp only [ScanData.sectorOf]
  generalize scan.angle i * 180.0 / CMath.pi + 180.0 = turned
  have hturn : (0 : K) < 360.0 := by
    norm_num
  have hlo := (le_div_iff₀ hturn).mp (Int.floor_le (turned / 360.0))
  have hhi := (div_lt_iff₀ hturn).mp (Int.lt_floor_add_one (turned / 360.0))
  have hwidth : (0 : K) < 45.0 := by
    norm_num
  refine ⟨Int.floor_nonneg.mpr (div_nonneg ?_ hwidth.le), Int.floor_lt.mpr ?_⟩
  · linarith
  · rw [div_lt_iff₀ hwidth]
    norm_num at hhi ⊢
    linarith

namespace ScanMessage

variable (m : ScanMessage K)

/-- The echoes in a sector. -/
def echoesIn (sector : Int) : Nat :=
  m.ranges.zipIdx.countP fun (range, i) =>
    m.sectorOf i = sector ∧ range.any fun r => 0.01 < r ∧ r < m.rangeMax

def Dead (sector : Int) : Prop := m.echoesIn sector < 3

instance (sector : Int) : Decidable (m.Dead sector) := inferInstanceAs (Decidable (_ < _))

def alive : Nat := (List.range 8).countP fun sector => ¬ m.Dead sector

/-- The lidar has gone blind in places. -/
def Blind : Prop := m.alive < 6

instance : Decidable m.Blind := inferInstanceAs (Decidable (_ < _))

end ScanMessage

namespace ScanFilter

variable (f : ScanFilter K) (m : ScanMessage K)

/-- Without the artefacts. -/
def clean : ScanMessage K :=
  { m with ranges := m.ranges.map fun range => range.filter fun r => ¬ r < f.minValid }

/-- With a wall in the dead sectors. -/
def wallOff : ScanMessage K :=
  { m with
    ranges := m.ranges.mapIdx fun i range =>
      if m.Dead (m.sectorOf i) then some f.deadRange else range }

/-- `_relay`. -/
def relay : ScanMessage K :=
  if (f.clean m).Blind then f.wallOff (f.clean m) else f.clean m

/-- A beam that becomes a wall. -/
def Walled (i : Nat) : Prop := (f.clean m).Blind ∧ (f.clean m).Dead ((f.clean m).sectorOf i)

instance (i : Nat) : Decidable (f.Walled m i) := inferInstanceAs (Decidable (_ ∧ _))

/-- There is a dead sector in the field of view. -/
def BlindAhead (fovHalf : K) : Prop :=
  ∃ i, i < m.ranges.length ∧ f.Walled m i ∧ |m.angle i| ≤ fovHalf

/-- The message stops a guard with the parameters `p`: it is blind ahead, or shows an echo there
that is not an artefact. -/
def Blocks (p : GuardParams K) : Prop :=
  f.BlindAhead m p.fovHalf ∨
    ∃ i r, p.EchoAt m.toScanData i r ∧ f.minValid ≤ r ∧ r ≤ p.stopDist

/-! ## What is relayed

Beam by beam: a beam of a dead sector is a wall, any other keeps its echo unless that is an
artefact. -/

variable {f m}

theorem relay_angles :
    (f.relay m).angleMin = m.angleMin ∧ (f.relay m).angleIncrement = m.angleIncrement := by
  rw [relay]
  split_ifs <;> exact ⟨rfl, rfl⟩

theorem relay_angle (i : Nat) : (f.relay m).angle i = m.angle i := by
  rw [ScanData.angle, relay_angles.1, relay_angles.2]
  rfl

/-- A beam of what is relayed. -/
theorem relay_getElem? (i : Nat) :
    (f.relay m).ranges[i]? = m.ranges[i]?.map fun range =>
      if f.Walled m i then some f.deadRange else range.filter fun r => ¬ r < f.minValid := by
  rw [relay]
  by_cases hblind : (f.clean m).Blind
  · rw [if_pos hblind, wallOff, List.getElem?_mapIdx, clean, List.getElem?_map, Option.map_map]
    refine Option.map_congr fun range _ => ?_
    exact if_congr (and_iff_right hblind).symm rfl rfl
  · rw [if_neg hblind, clean, List.getElem?_map]
    refine Option.map_congr fun range _ => ?_
    exact (if_neg fun hwall => hblind hwall.1).symm

/-- An echo of what is relayed is a wall, or one that is not an artefact. -/
theorem relay_eq_some_iff {i : Nat} {r : K} :
    (f.relay m).ranges[i]? = some (some r) ↔
      i < m.ranges.length ∧ f.Walled m i ∧ r = f.deadRange ∨
        ¬ f.Walled m i ∧ m.ranges[i]? = some (some r) ∧ f.minValid ≤ r := by
  rw [relay_getElem?, Option.map_eq_some_iff]
  by_cases hwall : f.Walled m i
  · simp only [hwall, if_true, true_and, not_true_eq_false, false_and, or_false,
      Option.some.injEq]
    constructor
    · rintro ⟨range, hrange, rfl⟩
      exact ⟨(List.getElem?_eq_some_iff.mp hrange).1, rfl⟩
    · rintro ⟨hlt, rfl⟩
      exact ⟨_, List.getElem?_eq_getElem hlt, rfl⟩
  · simp only [hwall, if_false, false_and, and_false, false_or, not_false_eq_true, true_and,
      Option.filter_eq_some_iff, decide_eq_true_eq, not_lt]
    constructor
    · rintro ⟨range, hrange, rfl, hle⟩
      exact ⟨hrange, hle⟩
    · rintro ⟨hrange, hle⟩
      exact ⟨_, hrange, rfl, hle⟩

/-- The wall is one for a guard with the parameters `p`: the range that stands for an artefact is
a valid echo, and near enough to stop for. -/
structure WallsFor (f : ScanFilter K) (p : GuardParams K) : Prop where
  echo : p.Echo f.deadRange
  stops : f.deadRange ≤ p.stopDist

/-- What the guard sees within its stop distance. -/
theorem exists_echo_relay_iff {p : GuardParams K} (hf : f.WallsFor p) :
    (∃ i r, p.EchoAt (f.relay m).toScanData i r ∧ r ≤ p.stopDist) ↔ f.Blocks m p := by
  have hangle : ∀ i : Nat, |(f.relay m).angleMin + i * (f.relay m).angleIncrement| ≤ p.fovHalf ↔
      |m.angle i| ≤ p.fovHalf := fun i => by
    rw [← relay_angle (f := f)]
    rfl
  constructor
  · rintro ⟨i, r, ⟨hrange, hecho, hfov⟩, hle⟩
    obtain ⟨hlt, hwall, -⟩ | ⟨-, hraw, hvalid⟩ := relay_eq_some_iff.mp hrange
    · exact .inl ⟨i, hlt, hwall, (hangle i).mp hfov⟩
    · exact .inr ⟨i, r, ⟨hraw, hecho, (hangle i).mp hfov⟩, hvalid, hle⟩
  · rintro (⟨i, hlt, hwall, hfov⟩ | ⟨i, r, ⟨hraw, hecho, hfov⟩, hvalid, hle⟩)
    · exact ⟨i, f.deadRange, ⟨relay_eq_some_iff.mpr (.inl ⟨hlt, hwall, rfl⟩), hf.echo,
        (hangle i).mpr hfov⟩, hf.stops⟩
    · -- the echo is still there, unless its sector is dead
      by_cases hwall : f.Walled m i
      · have hlt := (List.getElem?_eq_some_iff.mp hraw).1
        exact ⟨i, f.deadRange, ⟨relay_eq_some_iff.mpr (.inl ⟨hlt, hwall, rfl⟩), hf.echo,
          (hangle i).mpr hfov⟩, hf.stops⟩
      · exact ⟨i, r, ⟨relay_eq_some_iff.mpr (.inr ⟨hwall, hraw, hvalid⟩), hecho,
          (hangle i).mpr hfov⟩, hle⟩

end ScanFilter

/-! ## The guard in the runs of the controller

The guard is changed by scans, by clamping and by a goal that clears its hold. A property that
these keep holds in all runs, whatever else the controller does. -/

variable {vfhEnabled : Bool} {guardStopDist : K} {guardMinValidEchoes : Int}
variable {node : MotorNode K} {exec : ActiveGoal K} {i : ControlInput K}
variable {s s' : MotorState K} {e : MotorEvent K} {h : List (MotorEvent K)}

/-- The messages that arrive in an event. -/
def MotorEvent.messages : MotorEvent K → List (Message K)
  | .message m => [m]
  | .goal _ _ beforePath => beforePath
  | .tick i => i.beforeSnapshot ++ i.beforeClamp ++ i.beforeAdvance ++ i.beforeStore

/-- All scans among the messages meet `ok`. -/
def Scans (ok : ScanData K → Prop) (messages : List (Message K)) : Prop :=
  ∀ scan now, .scan scan now ∈ messages → ok scan

/-- A property of the guard that is not about the hold timer, and that the scans that meet `ok`
keep. -/
structure KeptBy (ok : ScanData K → Prop) (P : CollisionGuard K → Prop) : Prop where
  hold : ∀ {g} lastOkTime lastStop, P g → P { g with lastOkTime, lastStop }
  scan : ∀ {g scan} now, ok scan → P g → P (g.setScan scan now)

namespace KeptBy

variable {ok : ScanData K → Prop} {P : CollisionGuard K → Prop} (hP : KeptBy ok P)
include hP

omit [LinearOrder K] [FloorRing K] in
theorem receive {messages : List (Message K)} (hg : P node.guard) (hm : Scans ok messages) :
    P (node.receive messages).guard := by
  induction messages generalizing node with
  | nil => exact hg
  | cons m messages ih =>
    have hrest : Scans ok messages := fun scan now h => hm scan now (.tail _ h)
    refine @ih (node.onMessage m) ?_ hrest
    cases m with
    | odom x y qz qw => exact hg
    | path poses => exact hg
    | scan scan now => exact hP.scan now (hm scan now (.head _)) hg

/-- When the guard clamps. -/
theorem avoiding (hg : P node.guard) (hm : Scans ok (MotorEvent.tick i).messages) :
    P (avoiding i node exec).guard := by
  have htracking : P (tracking i node exec).guard := by
    apply hP.receive
    · exact hg
    · exact fun scan now h => hm scan now (by simp [MotorEvent.messages, h])
  have hclamp : Scans ok i.beforeClamp :=
    fun scan now h => hm scan now (by simp [MotorEvent.messages, h])
  rw [Execution.avoiding]
  split_ifs
  · apply hP.receive
    · exact htracking
    · exact hclamp
  · exact hP.receive htracking hclamp

theorem tick (hg : P node.guard) (hm : Scans ok (MotorEvent.tick i).messages) :
    P (controlTick i node exec).node.guard := by
  have hguarding : P (guarding i node exec).guard := hP.hold _ _ (hP.avoiding hg hm)
  simp only [controlTick]
  split_ifs
  · exact hg
  · exact hg
  · exact hguarding
  · have hloaded : P (((guarding i node exec).publishTwist (commanded i node exec)).receive
        i.beforeAdvance).guard := by
      apply hP.receive
      · exact hguarding
      · exact fun scan now h => hm scan now (by simp [MotorEvent.messages, h])
    have hstore : Scans ok i.beforeStore :=
      fun scan now h => hm scan now (by simp [MotorEvent.messages, h])
    simp only [MotorNode.proceed]
    split_ifs <;> exact hP.receive hloaded hstore

/-- **One step** of the controller. Only a tick clamps, and messages only bring scans, so a
property of the guard that both keep is kept. -/
theorem step (hg : P s.node.guard) (hm : Scans ok e.messages) (hstep : MotorStep s e s') :
    P s'.node.guard := by
  cases e with
  | message m =>
    obtain rfl := Option.some.inj hstep
    have hscans : Scans ok [m] := hm
    exact hP.receive hg hscans
  | goal target now beforePath =>
    simp only [MotorStep, MotorState.step] at hstep
    split at hstep
    · obtain rfl := Option.some.inj hstep
      apply hP.receive
      · exact hP.hold _ _ hg
      · exact hm
    · cases hstep
  | tick i =>
    obtain ⟨exec, hexec, rfl⟩ := Option.map_eq_some_iff.mp hstep
    exact hP.tick hg hm

end KeptBy

/-- The parameters that `on_configure` gives to the guard. -/
def guardParams (guardStopDist : K) (guardMinValidEchoes : Int) : GuardParams K :=
  { stopDist := guardStopDist, minValidEchoes := guardMinValidEchoes }

theorem run_guard_params (hr : MotorRun vfhEnabled guardStopDist guardMinValidEchoes h s) :
    s.node.guard.params = guardParams guardStopDist guardMinValidEchoes := by
  have hkept : KeptBy (fun _ => True) fun g : CollisionGuard K =>
      g.params = guardParams guardStopDist guardMinValidEchoes :=
    ⟨fun _ _ hg => hg, fun _ _ hg => hg⟩
  refine hr.invariant (I := fun _ s => s.node.guard.params = guardParams ..) rfl ?_
  exact fun _ _ _ _ hg hstep => hkept.step hg (fun _ _ _ => trivial) hstep

/-! ## While every scan stops the guard

No assumption is made about when the scans come, or whether they come: the latest one is enough. -/

variable {p : GuardParams K} {g : CollisionGuard K}

/-- A scan that forces a stop, whenever it came. -/
def GuardParams.Halting (p : GuardParams K) (scan : ScanData K) : Prop :=
  ∀ recv now, p.Forced scan recv now

/-- The latest scan forces a stop. -/
structure CollisionGuard.Halted (p : GuardParams K) (g : CollisionGuard K) : Prop where
  params : g.params = p
  received : g.recvTime ≠ none
  scan : p.Halting g.scan

omit [CMath K] [FloorRing K] in
theorem CollisionGuard.Halted.stops (hg : g.Halted p) (now : Int) : g.Stops now := by
  obtain ⟨recv, hrecv⟩ := Option.ne_none_iff_exists'.mp hg.received
  rw [stops_iff_forced hrecv, hg.params]
  exact hg.scan recv now

omit [CMath K] [FloorRing K] in
theorem halted_keptBy (p : GuardParams K) : KeptBy p.Halting (CollisionGuard.Halted p) where
  hold _ _ hg := ⟨hg.params, hg.received, hg.scan⟩
  scan now hscan hg := ⟨hg.params, Option.some_ne_none now, hscan⟩

/-- Such a guard stops in every tick, since a scan that arrives before it clamps stops it as
well. -/
theorem CollisionGuard.Halted.guardStops {a : Driven K} (hg : a.state.node.guard.Halted p)
    (hm : Scans p.Halting e.messages) : GuardStops a e := by
  cases e with
  | message m => trivial
  | goal target now beforePath => trivial
  | tick i =>
    intro exec _ hgoes
    rw [(published_of_none hgoes).2.1]
    exact decide_eq_true (((halted_keptBy p).avoiding hg hm).stops i.guardNow)

theorem ScanFilter.Blocks.halting {f : ScanFilter K} {m : ScanMessage K} (h : f.Blocks m p)
    (hf : f.WallsFor p) : p.Halting (f.relay m).toScanData :=
  fun _ _ => .inr (.inr (.inr ((ScanFilter.exists_echo_relay_iff hf).mpr h)))

/-- Every scan that arrives is relayed, from a message that stops the guard. -/
def BlockedScans (f : ScanFilter K) (p : GuardParams K) (_ : Driven K) (e : MotorEvent K) : Prop :=
  Scans (fun scan => ∃ m, f.Blocks m p ∧ scan = (f.relay m).toScanData) e.messages

variable [IsStrictOrderedRing K]

/-- **The way while the filter reports no free way.** From a scan on that shows an echo ahead
between `min_valid_range` and `guard_stop_dist`, or that is blind ahead, and as long as the scans
that follow do, whatever else arrives: the way that is still commanded is at most what it takes to
brake, and so less than sixteen centimetres. -/
theorem way_while_blocked {f : ScanFilter K}
    (hf : f.WallsFor (guardParams guardStopDist guardMinValidEchoes)) {m : ScanMessage K}
    (hm : f.Blocks m (guardParams guardStopDist guardMinValidEchoes)) {now : Int}
    (hr : MotorRun vfhEnabled guardStopDist guardMinValidEchoes
      (.message (.scan (f.relay m).toScanData now) :: h) s)
    {later : List (MotorEvent K)} {b : Driven K}
    (hlater : Run (only (BlockedScans f (guardParams guardStopDist guardMinValidEchoes)) DriveStep)
      ⟨s, 0⟩ later b) :
    b.way ≤ s.node.lastCmd.linear ^ 2 / (2 * 0.8) ∧ b.way < 0.16 := by
  have hhalted : s.node.guard.Halted (guardParams guardStopDist guardMinValidEchoes) := by
    have hparams := run_guard_params hr
    cases hr with
    | snoc _ hstep =>
      obtain rfl := Option.some.inj hstep
      exact ⟨hparams, Option.some_ne_none now, hm.halting hf⟩
  suffices h : b.state.node.guard.Halted (guardParams guardStopDist guardMinValidEchoes) ∧
      Braking s.node.lastCmd.linear b from Braking.way_le hr h.2
  refine hlater.invariant (I := fun _ b =>
    b.state.node.guard.Halted (guardParams guardStopDist guardMinValidEchoes) ∧
      Braking s.node.lastCmd.linear b) ⟨hhalted, .start hr⟩ ?_
  intro _ a e b ⟨hg, hb⟩ ⟨hblocked, hstep⟩
  have hscans : Scans (GuardParams.Halting _) e.messages := fun scan now hmem => by
    obtain ⟨m', hm', rfl⟩ := hblocked scan now hmem
    exact hm'.halting hf
  exact ⟨(halted_keptBy _).step hg hscans hstep.1, hb.step (hg.guardStops hscans) hstep⟩

/-- The lidar has gone blind. -/
noncomputable def blindScan : ScanMessage ℝ where
  ranges := [none]
  angleMin := 0
  angleIncrement := 0
  rangeMax := 10

theorem blocks_blindScan : ({} : ScanFilter ℝ).Blocks blindScan (guardParams 0.30 0) := by
  have hdead : ∀ sector, (({} : ScanFilter ℝ).clean blindScan).Dead sector := by
    intro sector
    norm_num [ScanMessage.Dead, ScanMessage.echoesIn, ScanFilter.clean, blindScan]
  have hblind : (({} : ScanFilter ℝ).clean blindScan).Blind := by
    rw [ScanMessage.Blind, ScanMessage.alive, List.countP_eq_zero.mpr]
    · decide
    · intro sector _
      simpa using hdead sector
  refine .inl ⟨0, Nat.one_pos, ⟨hblind, hdead _⟩, ?_⟩
  norm_num [ScanData.angle, blindScan, guardParams]

theorem wallsFor_default : ({} : ScanFilter ℝ).WallsFor (guardParams 0.30 0) where
  echo := by norm_num [GuardParams.Echo, guardParams]
  stops := by norm_num [guardParams]

/-- The lidar goes blind while the robot drives. -/
noncomputable def blinded : MotorState ℝ where
  node := (cruise 0.05).onMessage (.scan (({} : ScanFilter ℝ).relay blindScan).toScanData 0)
  exec := some lineAhead

/-- The next tick. -/
theorem way_while_blocked_blind :
    ∃ b : Driven ℝ, Run (only (BlockedScans {} (guardParams 0.30 0)) DriveStep) ⟨blinded, 0⟩
      [.tick (quiet 0)] b ∧ b.way < 0.16 := by
  obtain ⟨h, hr⟩ := run_cruise
  have hscan : MotorStep (⟨cruise 0.05, some lineAhead⟩ : MotorState ℝ)
      (.message (.scan (({} : ScanFilter ℝ).relay blindScan).toScanData 0)) blinded := rfl
  let out := controlTick (quiet 0) blinded.node lineAhead
  have htick : only (BlockedScans {} (guardParams 0.30 0)) DriveStep ⟨blinded, 0⟩ (.tick (quiet 0))
      ⟨⟨out.node, out.exec⟩, 0 + out.node.lastCmd.linear * 0.05⟩ :=
    ⟨fun scan now hmem => absurd hmem List.not_mem_nil, rfl, rfl⟩
  have hlater := Run.start.snoc htick
  exact ⟨_, hlater, (way_while_blocked wallsFor_default blocks_blindScan (hr.snoc hscan) hlater).2⟩

end AmrFramework.Execution
