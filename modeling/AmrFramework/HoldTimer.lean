import AmrFramework.CollisionGuard
import AmrFramework.Runs

/-!
# The hold timer

`blocked_for` measures from the last clamp that let the robot go, and before the first
such clamp from the scan. That should be the first scan, but every scan writes its time.
So a robot that is blocked from the start, scan after scan, is never blocked for long
(`hold_restarts`). While no scan comes at such a time the timer accumulates
(`hold_accumulates`), and after `clear_hold` it always does (`hold_accumulates_cleared`).

The calls come in any order, each at a time not before the one before it. A stretch over which
the robot is blocked is a run of its own, whose clamps all press; the run before it is arbitrary.
The invariant of the stretch is that every answer so far is the time since one and the same
origin (`Stretch`).
-/

namespace AmrFramework.Execution

universe u

open Runs

variable {K : Type u} [Field K]

/-- The calls, `blocked_for` with what it returned. `clear_hold` is not among them: a stretch is
what lies between two of its calls. -/
inductive HoldEvent (K : Type u) : Type u
  | setScan (scan : ScanData K) (now : Int)
  | clamp (cmdV : K) (now : Int)
  | blockedFor (now blocked : Int)

/-- What `blocked_for` measures from, if there is anything. -/
def CollisionGuard.holdOrigin (g : CollisionGuard K) : Option Int := g.lastOkTime.or g.recvTime

/-- What is returned is the time since the origin, in whole milliseconds. -/
theorem blockedFor_eq (g : CollisionGuard K) (now : Int) :
    g.blockedFor now = g.holdOrigin.elim 0 fun o => (now - o).tdiv 1000000 := by
  rw [CollisionGuard.blockedFor, CollisionGuard.holdOrigin]
  cases g.lastOkTime <;> cases g.recvTime <;> rfl

variable [LinearOrder K]

/-- A guard and the time of its latest call: times do not go back. -/
inductive HoldStep : CollisionGuard K × Int → HoldEvent K → CollisionGuard K × Int → Prop
  | setScan {g : CollisionGuard K} {clock now : Int} (scan : ScanData K) (h : clock ≤ now) :
      HoldStep (g, clock) (.setScan scan now) (g.setScan scan now, now)
  | clamp {g : CollisionGuard K} {clock now : Int} (cmdV : K) (h : clock ≤ now) :
      HoldStep (g, clock) (.clamp cmdV now) ((g.clamp cmdV now).2, now)
  | blockedFor {g : CollisionGuard K} {clock now : Int} (h : clock ≤ now) :
      HoldStep (g, clock) (.blockedFor now (g.blockedFor now)) (g, now)

/-- A guard that was just made, or whose hold was just cleared. A run begins with one of these. -/
inductive HoldStart : CollisionGuard K × Int → Prop
  | made (p : GuardParams K) (clock : Int) : HoldStart ({ params := p }, clock)
  | cleared (g : CollisionGuard K) (now : Int) : HoldStart (g.clearHold now, now)

/-- A clamp leaves the robot pressed by an obstacle and below crawl speed, so that it does not
count as one that let it go. -/
def Presses (s : CollisionGuard K × Int) : HoldEvent K → Prop
  | .clamp cmdV now =>
    (s.1.Stops now ∨ s.1.Near) ∧ (s.1.clamp cmdV now).1 < s.1.params.crawlSpeed
  | _ => True

/-- No scan takes the place of the first one before a clamp has let the robot go. Once one has,
scans may come as they like. -/
def KeepsOrigin (s : CollisionGuard K × Int) : HoldEvent K → Prop
  | .setScan _ now => s.1.lastOkTime = none → ∀ recv ∈ s.1.recvTime, recv = now
  | _ => True

instance (s : CollisionGuard K × Int) : (e : HoldEvent K) → Decidable (Presses s e)
  | .clamp .. => inferInstanceAs (Decidable (_ ∧ _))
  | .setScan .. => .isTrue trivial
  | .blockedFor .. => .isTrue trivial

instance (s : CollisionGuard K × Int) : (e : HoldEvent K) → Decidable (KeepsOrigin s e)
  | .setScan .. => inferInstanceAs (Decidable (_ → ∀ recv ∈ s.1.recvTime, _))
  | .clamp .. => .isTrue trivial
  | .blockedFor .. => .isTrue trivial

/-- The steps of a stretch over which the robot is blocked. -/
def Blocked : CollisionGuard K × Int → HoldEvent K → CollisionGuard K × Int → Prop :=
  only Presses HoldStep

/-- The steps as a function. -/
def holdStep (s : CollisionGuard K × Int) : HoldEvent K → Option (CollisionGuard K × Int)
  | .setScan scan now => if s.2 ≤ now then some (s.1.setScan scan now, now) else none
  | .clamp cmdV now => if s.2 ≤ now then some ((s.1.clamp cmdV now).2, now) else none
  | .blockedFor now b => if s.2 ≤ now ∧ s.1.blockedFor now = b then some (s.1, now) else none

theorem holdStep_steps (s : CollisionGuard K × Int) (e : HoldEvent K) (s' : CollisionGuard K × Int)
    (h : holdStep s e = some s') : HoldStep s e s' := by
  cases e with
  | setScan scan now =>
    obtain ⟨hle, hs⟩ := Option.ite_none_right_eq_some.mp h
    obtain rfl := Option.some.inj hs
    exact .setScan scan hle
  | clamp cmdV now =>
    obtain ⟨hle, hs⟩ := Option.ite_none_right_eq_some.mp h
    obtain rfl := Option.some.inj hs
    exact .clamp cmdV hle
  | blockedFor now b =>
    obtain ⟨⟨hle, rfl⟩, hs⟩ := Option.ite_none_right_eq_some.mp h
    obtain rfl := Option.some.inj hs
    exact .blockedFor hle

/-- `blocked_for` never falls, and after the first clamp it grows with the time. It returns whole
milliseconds, so it keeps up to within one of them. -/
structure Accumulates (e : HoldEvent K) (older : List (HoldEvent K)) : Prop where
  mono : ∀ now b now' b', e = .blockedFor now' b' → .blockedFor now b ∈ older → b ≤ b'
  grows : ∀ now b now' b' newer oldest cmdV t, e = .blockedFor now' b' →
    older = newer ++ .blockedFor now b :: oldest → .clamp cmdV t ∈ oldest →
      |(b' - b) * 1000000 - (now' - now)| < 1000000

/-! ## One step

A step of a stretch never writes the time of the last good clamp, since none of its clamps is
good. So the origin is lost only to a scan, and only while there was no good clamp at all. -/

/-- The times that the hold can be measured from are over, so that no answer is negative. -/
structure Timed (s : CollisionGuard K × Int) : Prop where
  ok_le : ∀ ok ∈ s.1.lastOkTime, ok ≤ s.2
  recv_le : s.1.lastOkTime = none → ∀ recv ∈ s.1.recvTime, recv ≤ s.2
  no_scan : s.1.lastOkTime = none → s.1.recvTime = none → s.1.scan.ranges = []

section Step

variable {s s' : CollisionGuard K × Int} {e : HoldEvent K} {o : Int}

omit [LinearOrder K] in
/-- A guard at the start knows of no time later than the clock, -/
theorem HoldStart.timed (h : HoldStart s) : Timed s := by
  cases h with
  | made p clock => exact ⟨nofun, nofun, fun _ _ => rfl⟩
  | cleared g now =>
    refine ⟨fun ok hok => ?_, nofun, nofun⟩
    obtain rfl : now = ok := Option.some.inj hok
    exact le_rfl

/-- and the clock does not go back, -/
theorem HoldStep.clock_le (h : HoldStep s e s') : s.2 ≤ s'.2 := by
  cases h <;> assumption

/-- so this stays so. -/
theorem Timed.step (ht : Timed s) (h : HoldStep s e s') : Timed s' := by
  cases h with
  | setScan scan hle =>
    refine ⟨fun ok hok => (ht.ok_le ok hok).trans hle, fun _ recv hrecv => ?_, nofun⟩
    exact (Option.some.inj hrecv).ge
  | @clamp g clock now cmdV hle =>
    rcases em (¬(g.Stops now ∨ g.Near) ∨ g.params.crawlSpeed ≤ g.limit cmdV now) with hgo | hgo
    · have hok : (g.clamp cmdV now).2.lastOkTime = some now := if_pos hgo
      refine ⟨fun ok hmem => ?_, fun hnone => ?_, fun hnone => ?_⟩
      · exact (Option.some.inj (hok.symm.trans hmem)).ge
      · exact absurd (hok.symm.trans hnone) (by simp)
      · exact absurd (hok.symm.trans hnone) (by simp)
    · have hok : (g.clamp cmdV now).2.lastOkTime = g.lastOkTime := if_neg hgo
      refine ⟨fun ok hmem => ?_, fun hnone recv hmem => ?_, fun hnone => ?_⟩
      · exact (ht.ok_le ok (hok ▸ hmem)).trans hle
      · exact (ht.recv_le (hok ▸ hnone) recv hmem).trans hle
      · exact ht.no_scan (hok ▸ hnone)
  | blockedFor hle =>
    exact ⟨fun ok hok => (ht.ok_le ok hok).trans hle,
      fun hnone recv hrecv => (ht.recv_le hnone recv hrecv).trans hle, ht.no_scan⟩

omit [LinearOrder K] in
/-- What the hold is measured from is over. -/
theorem Timed.origin_le (ht : Timed s) (h : s.1.holdOrigin = some o) : o ≤ s.2 := by
  rw [CollisionGuard.holdOrigin] at h
  cases hok : s.1.lastOkTime with
  | some ok =>
    rw [hok] at h
    exact ht.ok_le o (hok.trans h)
  | none =>
    rw [hok, Option.none_or] at h
    exact ht.recv_le hok o h

/-- A clamp that presses leaves the time of the last one that did not: the code writes that time
in the other case only. -/
theorem lastOkTime_of_presses {g : CollisionGuard K} {cmdV : K} {now : Int}
    (hpress : (g.Stops now ∨ g.Near) ∧ (g.clamp cmdV now).1 < g.params.crawlSpeed) :
    (g.clamp cmdV now).2.lastOkTime = g.lastOkTime :=
  if_neg (not_or.mpr ⟨not_not.mpr hpress.1, not_le.mpr hpress.2⟩)

/-- **The origin stays**, once there is one. This is the whole of the argument: `blocked_for`
measures from the origin, so its answers grow as the clock does. -/
theorem origin_kept (h : only KeepsOrigin Blocked s e s') (ho : s.1.holdOrigin = some o) :
    s'.1.holdOrigin = some o := by
  obtain ⟨hkeeps, hpress, hstep⟩ := h
  cases hstep with
  | @setScan g clock now scan hle =>
    change g.lastOkTime.or (some now) = some o
    change g.lastOkTime.or g.recvTime = some o at ho
    cases hok : g.lastOkTime with
    | some ok =>
      rw [hok] at ho
      exact ho
    | none =>
      rw [hok, Option.none_or] at ho
      rw [Option.none_or, hkeeps hok o ho]
  | @clamp g clock now cmdV hle =>
    change (g.clamp cmdV now).2.lastOkTime.or g.recvTime = some o
    rw [lastOkTime_of_presses hpress]
    exact ho
  | blockedFor hle => exact ho

/-- Only a guard that has a scan presses, and a guard with a scan has an origin. -/
theorem Timed.origin_of_presses {g : CollisionGuard K} {clock now : Int} (ht : Timed (g, clock))
    (hpress : g.Stops now ∨ g.Near) : ∃ o, g.holdOrigin = some o := by
  cases hok : g.lastOkTime with
  | some ok => exact ⟨ok, by rw [CollisionGuard.holdOrigin, hok]; rfl⟩
  | none =>
    cases hrecv : g.recvTime with
    | some recv => exact ⟨recv, by rw [CollisionGuard.holdOrigin, hok, hrecv]; rfl⟩
    | none =>
      rcases hpress with ⟨recv, hmem, -⟩ | ⟨d, hd, -⟩
      · rw [hrecv] at hmem
        cases hmem
      · have hranges : g.scan.ranges = [] := ht.no_scan hok hrecv
        simp [CollisionGuard.nearestInFov, ScanData.beams, hranges] at hd

end Step

/-! ## A stretch

Rounding to milliseconds is why an answer grows with the time only up to one of them. -/

section Stretch

variable {s s' : CollisionGuard K × Int} {e : HoldEvent K} {h : List (HoldEvent K)} {now b : Int}

/-- The answer is the time since the origin, which was not later than the question. -/
def Anchored (s : CollisionGuard K × Int) (now b : Int) : Prop :=
  ∃ o, s.1.holdOrigin = some o ∧ o ≤ now ∧ b = (now - o).tdiv 1000000

/-- The answers so far, and the guard: each was zero, or was measured from the origin that the
guard has now. -/
structure Stretch (h : List (HoldEvent K)) (s : CollisionGuard K × Int) : Prop where
  timed : Timed s
  answers : ∀ now b, .blockedFor now b ∈ h → now ≤ s.2 ∧ (b = 0 ∨ Anchored s now b)
  anchored : ∀ newer now b oldest cmdV t, h = newer ++ .blockedFor now b :: oldest →
    .clamp cmdV t ∈ oldest → Anchored s now b
  clamped : ∀ cmdV t, .clamp cmdV t ∈ h → ∃ o, s.1.holdOrigin = some o

/-- An answer that was the time since the origin still is, because the origin stays, -/
theorem Anchored.step (h : Anchored s now b) (hstep : only KeepsOrigin Blocked s e s') :
    Anchored s' now b := by
  obtain ⟨o, ho, hrest⟩ := h
  exact ⟨o, origin_kept hstep ho, hrest⟩

omit [LinearOrder K] in
/-- and so is the next one. -/
theorem anchored_of_origin (ht : Timed s) {o : Int} (ho : s.1.holdOrigin = some o)
    (hle : s.2 ≤ now) : Anchored s now (s.1.blockedFor now) :=
  ⟨o, ho, (ht.origin_le ho).trans hle, by rw [blockedFor_eq, ho]; rfl⟩

/-- A step of the stretch keeps the invariant. A question adds an answer, measured from the
origin; the other two steps leave the origin where it is. -/
theorem Stretch.step (hs : Stretch h s) (hstep : only KeepsOrigin Blocked s e s') :
    Stretch (e :: h) s' where
  timed := hs.timed.step hstep.2.2
  answers := by
    intro now b hmem
    rcases List.mem_cons.mp hmem with rfl | hmem
    · obtain ⟨-, -, hblocked⟩ := hstep
      cases hblocked with
      | @blockedFor g clock now hle =>
        refine ⟨le_rfl, ?_⟩
        cases ho : g.holdOrigin with
        | none => exact .inl (by rw [blockedFor_eq, ho]; rfl)
        | some o => exact .inr (anchored_of_origin (hs.timed.step (.blockedFor hle)) ho le_rfl)
    · obtain ⟨hle, hb⟩ := hs.answers now b hmem
      exact ⟨hle.trans hstep.2.2.clock_le, hb.imp_right fun hb => hb.step hstep⟩
  anchored := by
    intro newer now b oldest cmdV t heq hclamp
    cases newer with
    | nil =>
      obtain ⟨rfl, rfl⟩ := List.cons.inj heq
      obtain ⟨o, ho⟩ := hs.clamped cmdV t hclamp
      obtain ⟨-, -, hblocked⟩ := hstep
      cases hblocked with
      | blockedFor hle => exact anchored_of_origin (hs.timed.step (.blockedFor hle)) ho le_rfl
    | cons e' newer =>
      have htail := (List.cons.inj heq).2
      exact (hs.anchored newer now b oldest cmdV t htail hclamp).step hstep
  clamped := by
    intro cmdV t hmem
    rcases List.mem_cons.mp hmem with rfl | hmem
    · obtain ⟨o, ho⟩ : ∃ o, s.1.holdOrigin = some o := by
        obtain ⟨-, hpress, hclamp⟩ := hstep
        cases hclamp with
        | clamp cmdV hle => exact hs.timed.origin_of_presses hpress.1
      exact ⟨o, origin_kept hstep ho⟩
    · obtain ⟨o, ho⟩ := hs.clamped cmdV t hmem
      exact ⟨o, origin_kept hstep ho⟩

/-- **The next answer** is as much more as time has passed. Both answers are rounded down, which
makes the difference of less than one millisecond. -/
theorem Stretch.accumulates (hs : Stretch h s) (hstep : only KeepsOrigin Blocked s e s') :
    Accumulates e h where
  mono := by
    rintro now b now' b' rfl hmem
    obtain ⟨-, -, hblocked⟩ := hstep
    cases hblocked with
    | @blockedFor g clock _ hle =>
      obtain ⟨hnow, rfl | ⟨o, ho, hon, rfl⟩⟩ := hs.answers now b hmem
      · cases ho : g.holdOrigin with
        | none => simp [blockedFor_eq, ho]
        | some o =>
          have hclock := hs.timed.origin_le ho
          rw [blockedFor_eq, ho]
          exact Int.tdiv_nonneg (by omega) (by decide)
      · have hmono : (now - o).tdiv 1000000 ≤ (now' - o).tdiv 1000000 := by
          rw [Int.tdiv_eq_ediv_of_nonneg (by omega), Int.tdiv_eq_ediv_of_nonneg (by omega)]
          omega
        rw [blockedFor_eq, show g.holdOrigin = some o from ho]
        exact hmono
  grows := by
    rintro now b now' b' newer oldest cmdV t rfl heq hclamp
    obtain ⟨o, ho, hon, rfl⟩ := hs.anchored newer now b oldest cmdV t heq hclamp
    have hnow := (hs.answers now _ (heq ▸ List.mem_append_right _ List.mem_cons_self)).1
    obtain ⟨-, -, hblocked⟩ := hstep
    cases hblocked with
    | @blockedFor g clock _ hle =>
      rw [blockedFor_eq, show g.holdOrigin = some o from ho]
      simp only [Option.elim_some]
      rw [Int.tdiv_eq_ediv_of_nonneg (by omega), Int.tdiv_eq_ediv_of_nonneg (by omega)]
      exact abs_lt.mpr ⟨by omega, by omega⟩

/-- The times of a guard stay in order. -/
theorem HoldStart.timed_of_run {start s₀ : CollisionGuard K × Int} {h₀ : List (HoldEvent K)}
    (hstart : HoldStart start) (hr₀ : Run HoldStep start h₀ s₀) : Timed s₀ :=
  hr₀.invariant (I := fun _ s => Timed s) hstart.timed fun _ _ _ _ ht hstep => ht.step hstep

/-- From there on a stretch whose scans keep the origin accumulates. -/
theorem Timed.accumulates {s₀ : CollisionGuard K × Int} (htimed : Timed s₀)
    (hr : Run (only KeepsOrigin Blocked) s₀ h s) : Always Accumulates h := by
  have hinv := hr.invariant (I := fun h s => Stretch h s ∧ Always Accumulates h)
    ⟨⟨htimed, nofun, fun newer _ _ _ _ _ heq => by simp at heq, nofun⟩, trivial⟩
    fun h s e s' ⟨hs, halways⟩ hstep => ⟨hs.step hstep, hs.accumulates hstep, halways⟩
  exact hinv.2

/-- **The timer accumulates** over every stretch in which no scan takes the place of the first
one, before a clamp has let the robot go. Such a scan is the only event that moves the origin. -/
theorem hold_accumulates {start s₀ : CollisionGuard K × Int} {h₀ : List (HoldEvent K)}
    (hstart : HoldStart start) (hr₀ : Run HoldStep start h₀ s₀)
    (hr : Run (only KeepsOrigin Blocked) s₀ h s) : Always Accumulates h :=
  (hstart.timed_of_run hr₀).accumulates hr

/-- A robot that the first scan blocks. -/
theorem hold_accumulates_first :
    let scan : ScanData ℚ := ⟨[some 0.2], 0, 0⟩
    Always Accumulates [.blockedFor 400000000 400, .clamp 0.5 100000000,
      .blockedFor 50000000 50, .clamp (0.5 : ℚ) 0, .setScan scan 0] := by
  intro scan
  obtain ⟨s, hr, -⟩ := Run.of_exec_any
    (restrict_only KeepsOrigin (restrict_only Presses holdStep_steps)) (({} : CollisionGuard ℚ), 0)
    [.setScan scan 0, .clamp 0.5 0, .blockedFor 50000000 50, .clamp 0.5 100000000,
      .blockedFor 400000000 400] (fun _ => true) (by decide +kernel)
  exact hold_accumulates (.made {} 0) .start hr

/-- The next scan takes the place of the first one. -/
theorem not_hold_accumulates :
    let scan : ScanData ℚ := ⟨[some 0.2], 0, 0⟩
    let h : List (HoldEvent ℚ) := [.blockedFor 100000000 0, .setScan scan 100000000,
      .blockedFor 100000000 100, .clamp 0.5 0, .setScan scan 0]
    (∃ s, Run Blocked (({} : CollisionGuard ℚ), (0 : Int)) h s) ∧ ¬Always Accumulates h := by
  intro scan h
  refine ⟨?_, fun halways => ?_⟩
  · obtain ⟨s, hr, -⟩ := Run.of_exec_any (restrict_only Presses holdStep_steps)
      (({} : CollisionGuard ℚ), 0)
      [.setScan scan 0, .clamp 0.5 0, .blockedFor 100000000 100, .setScan scan 100000000,
        .blockedFor 100000000 0] (fun _ => true) (by decide +kernel)
    exact ⟨s, hr⟩
  · have hle := halways.1.mono 100000000 100 100000000 0 rfl (by simp)
    exact absurd hle (by decide)

/-! ## When the condition fails, and when it does not

The condition is needed: one scan more, before any clamp was good, and the block that is reported
begins with it. After `clear_hold` it always holds, because that writes the time of a good clamp. -/

/-- **A scan that takes the place of the first one** starts the timer anew: with no clamp that
let the robot go, the origin is the time of the latest scan, and it has just become now. -/
theorem hold_restarts {s₀ : CollisionGuard K × Int} {recv : Int} (hr : Run Blocked s₀ h s)
    (hok : s.1.lastOkTime = none) (hrecv : s.1.recvTime = some recv) (hclock : s.2 ≤ now)
    (hlong : recv + 1000000 ≤ now) (scan : ScanData K) :
    ∃ b, Run Blocked s₀ (.blockedFor now 0 :: .setScan scan now :: .blockedFor now b :: h)
        (s.1.setScan scan now, now) ∧
      ¬Always Accumulates (.blockedFor now 0 :: .setScan scan now :: .blockedFor now b :: h) := by
  obtain ⟨g, clock⟩ := s
  have horigin : g.holdOrigin = some recv := by
    rw [CollisionGuard.holdOrigin, hok, Option.none_or, hrecv]
  have hzero : (g.setScan scan now).blockedFor now = 0 := by
    have horigin' : (g.setScan scan now).holdOrigin = some now := by
      change g.lastOkTime.or (some now) = some now
      rw [hok, Option.none_or]
    rw [blockedFor_eq, horigin', Option.elim_some, Int.sub_self, Int.zero_tdiv]
  have hpos : 0 < g.blockedFor now := by
    rw [blockedFor_eq, horigin, Option.elim_some, Int.tdiv_eq_ediv_of_nonneg (by omega)]
    omega
  refine ⟨g.blockedFor now, ?_, fun halways => ?_⟩
  · have hbefore : Blocked (g, clock) (.blockedFor now (g.blockedFor now)) (g, now) :=
      ⟨trivial, .blockedFor hclock⟩
    have hscan : Blocked (g, now) (.setScan scan now) (g.setScan scan now, now) :=
      ⟨trivial, .setScan scan le_rfl⟩
    have hafter : Blocked (g.setScan scan now, now) (.blockedFor now 0)
        (g.setScan scan now, now) := ⟨trivial, hzero ▸ .blockedFor le_rfl⟩
    exact ((hr.snoc hbefore).snoc hscan).snoc hafter
  · have hle := halways.1.mono now _ now 0 rfl (List.mem_cons_of_mem _ List.mem_cons_self)
    omega

/-- A time of a good clamp is never taken back, only replaced by a later one. -/
theorem HoldStep.cleared (hstep : HoldStep s e s') (hok : s.1.lastOkTime ≠ none) :
    s'.1.lastOkTime ≠ none := by
  cases hstep with
  | setScan scan hle => exact hok
  | @clamp g clock now cmdV hle =>
    change (if _ then some now else g.lastOkTime) ≠ none
    split_ifs
    · exact Option.some_ne_none now
    · exact hok
  | blockedFor hle => exact hok

/-- **After `clear_hold`** there is always a time to measure from, so no scan can move the
origin, and the timer accumulates without any condition. -/
theorem hold_accumulates_cleared {g : CollisionGuard K} {t : Int} {s₀ : CollisionGuard K × Int}
    {h₀ : List (HoldEvent K)} (hr₀ : Run HoldStep (g.clearHold t, t) h₀ s₀)
    (hr : Run Blocked s₀ h s) : Always Accumulates h := by
  have hcleared : s₀.1.lastOkTime ≠ none := hr₀.invariant (I := fun _ s => s.1.lastOkTime ≠ none)
    (Option.some_ne_none t) fun _ _ _ _ hok hstep => hstep.cleared hok
  have hkeeps := hr.invariant
    (I := fun h s => s.1.lastOkTime ≠ none ∧ Run (only KeepsOrigin Blocked) s₀ h s)
    ⟨hcleared, .start⟩ fun h s e s' ⟨hok, hrun⟩ hstep => by
      refine ⟨hstep.2.cleared hok, hrun.snoc ⟨?_, hstep⟩⟩
      cases e with
      | setScan scan now => exact fun hnone => absurd hnone hok
      | clamp cmdV now => trivial
      | blockedFor now b => trivial
  exact ((HoldStart.cleared g t).timed_of_run hr₀).accumulates hkeeps.2

end Stretch

end AmrFramework.Execution
