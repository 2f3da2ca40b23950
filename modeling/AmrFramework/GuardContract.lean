import AmrFramework.CollisionGuard

/-!
# The contract of the collision guard

What `clamp` returns, after any calls of `set_scan`, `set_params`, `clear_hold`
and `clamp` itself, in terms of the latest scan and the parameters in force.

* `EchoAt scan i r` — beam `i` has a valid echo at `r`, in the field of view;
* `Forced` — the four reasons for a stop once there is a scan, without the guard's
  own state.

The slowdown divides by `safe_dist - stop_dist`. The parameters are free, so this
may be zero or negative; that a nearest echo lies beyond `stop_dist` and within
`safe_dist` is what excludes it where the code divides.
-/

namespace AmrFramework.Execution

universe u

variable {K : Type u} [Field K]

inductive GuardCall (K : Type u) [Field K] : Type u
  | setScan (scan : ScanData K) (now : Int)
  | setParams (p : GuardParams K)
  | clearHold (now : Int)
  | clamp (cmdV : K) (now : Int)

/-- The scan and the time of the latest `set_scan`; the calls are newest first. -/
def lastScan : List (GuardCall K) → Option (ScanData K × Int)
  | [] => none
  | .setScan scan now :: _ => some (scan, now)
  | _ :: calls => lastScan calls

/-- The parameters in force; `p` are those of the constructor. -/
def paramsAfter (p : GuardParams K) : List (GuardCall K) → GuardParams K
  | [] => p
  | .setParams q :: _ => q
  | _ :: calls => paramsAfter p calls

/-- The scan with the range of one beam replaced. -/
def ScanData.replace (scan : ScanData K) (i : Nat) (r : K) : ScanData K :=
  { scan with ranges := scan.ranges.set i (some r) }

variable [LinearOrder K]

def CollisionGuard.call (g : CollisionGuard K) : GuardCall K → CollisionGuard K
  | .setScan scan now => g.setScan scan now
  | .setParams p => g.setParams p
  | .clearHold now => g.clearHold now
  | .clamp cmdV now => (g.clamp cmdV now).2

/-- The guard after the calls. -/
def guardAfter (p : GuardParams K) : List (GuardCall K) → CollisionGuard K
  | [] => { params := p }
  | c :: calls => (guardAfter p calls).call c

/-- Beam `i` has a valid echo at `r`, in the field of view. -/
def GuardParams.EchoAt (p : GuardParams K) (scan : ScanData K) (i : Nat) (r : K) : Prop :=
  scan.ranges[i]? = some (some r) ∧ p.Echo r ∧
    |scan.angleMin + i * scan.angleIncrement| ≤ p.fovHalf

/-- The number of valid echoes, in any direction. -/
def GuardParams.validEchoes (p : GuardParams K) (scan : ScanData K) : Nat :=
  scan.ranges.countP fun range => range.any fun r => p.Echo r

/-- The scan received at `recv` is stale, empty or blind, or shows an obstacle
within the stopping distance. -/
def GuardParams.Forced (p : GuardParams K) (scan : ScanData K) (recv now : Int) : Prop :=
  p.staleTimeoutNs < now - recv ∨ scan.ranges = [] ∨ (p.validEchoes scan : Int) < p.minValidEchoes ∨
    ∃ i r, p.EchoAt scan i r ∧ r ≤ p.stopDist

/-! ## What the guard holds

The guard has no memory beside its parameters, its latest scan and the time of it, as far as the
speed is concerned; the two fields about the hold never enter it. So it is enough to know the
latest call of each of two kinds. -/

/-- The parameters in force are those of the latest `set_params`, -/
theorem guardAfter_params (p : GuardParams K) (calls : List (GuardCall K)) :
    (guardAfter p calls).params = paramsAfter p calls := by
  induction calls with
  | nil => rfl
  | cons c calls ih =>
    cases c with
    | setParams q => rfl
    | setScan scan now => exact ih
    | clearHold now => exact ih
    | clamp cmdV now => exact ih

/-- and the scan is that of the latest `set_scan`. -/
theorem guardAfter_scan (p : GuardParams K) (calls : List (GuardCall K)) :
    ((guardAfter p calls).scan, (guardAfter p calls).recvTime) =
      (lastScan calls).elim (⟨[], 0.0, 0.0⟩, none) fun (scan, recv) => (scan, some recv) := by
  induction calls with
  | nil => rfl
  | cons c calls ih =>
    cases c with
    | setScan scan now => rfl
    | setParams q => exact ih
    | clearHold now => exact ih
    | clamp cmdV now => exact ih

theorem scan_of_lastScan {p : GuardParams K} {calls : List (GuardCall K)} {scan : ScanData K}
    {recv : Int} (h : lastScan calls = some (scan, recv)) :
    (guardAfter p calls).scan = scan ∧ (guardAfter p calls).recvTime = some recv := by
  have hscan := guardAfter_scan p calls
  rw [h] at hscan
  exact Prod.mk.inj hscan

theorem scan_of_no_scan {p : GuardParams K} {calls : List (GuardCall K)}
    (h : lastScan calls = none) :
    (guardAfter p calls).scan.ranges = [] ∧ (guardAfter p calls).recvTime = none := by
  have hscan := guardAfter_scan p calls
  rw [h] at hscan
  obtain ⟨hs, hr⟩ := Prod.mk.inj hscan
  exact ⟨congrArg ScanData.ranges hs, hr⟩

/-! ## Echoes

The loops of the source run over the beams with their indices. What they compute does not depend
on the order: the nearest echo is a least element, the number of echoes a count. -/

omit [LinearOrder K] in
/-- A beam is an entry of the scan with a finite range. -/
theorem mem_beams {scan : ScanData K} {b : K × K} :
    b ∈ scan.beams ↔
      ∃ i : Nat, scan.ranges[i]? = some (some b.1) ∧
        b.2 = scan.angleMin + i * scan.angleIncrement := by
  obtain ⟨r, a⟩ := b
  simp only [ScanData.beams, List.mem_filterMap, Prod.exists, List.mem_zipIdx_iff_getElem?,
    Option.map_eq_some_iff, Prod.mk.injEq]
  constructor
  · rintro ⟨range, i, hi, r', rfl, rfl, rfl⟩
    exact ⟨i, hi, rfl⟩
  · rintro ⟨i, hi, rfl⟩
    exact ⟨some r, i, hi, r, rfl, rfl, rfl⟩

variable {g : CollisionGuard K}

/-- The distances that `nearest_in_fov_locked` runs over. -/
theorem mem_echoes {r : K} :
    r ∈ (g.scan.beams.filter fun (r, a) => g.params.Echo r ∧ |a| ≤ g.params.fovHalf).map Prod.fst ↔
      ∃ i, g.params.EchoAt g.scan i r := by
  simp only [List.mem_map, List.mem_filter, decide_eq_true_eq, Prod.exists, exists_and_right,
    exists_eq_right, mem_beams]
  constructor
  · rintro ⟨a, ⟨i, hi, rfl⟩, hecho, hfov⟩
    exact ⟨i, hi, hecho, hfov⟩
  · rintro ⟨i, hi, hecho, hfov⟩
    exact ⟨_, ⟨i, hi, rfl⟩, hecho, hfov⟩

/-- The nearest echo is an echo, and none is nearer. -/
theorem nearestInFov_eq_some {d : K} :
    g.nearestInFov = some d ↔
      (∃ i, g.params.EchoAt g.scan i d) ∧ ∀ i r, g.params.EchoAt g.scan i r → d ≤ r := by
  rw [CollisionGuard.nearestInFov, List.min?_eq_some_iff, mem_echoes]
  refine and_congr_right fun _ => ⟨fun h i r hr => h r (mem_echoes.mpr ⟨i, hr⟩), fun h r hr => ?_⟩
  obtain ⟨i, hi⟩ := mem_echoes.mp hr
  exact h i r hi

/-- An echo bounds the nearest one. -/
theorem exists_nearest_le {i : Nat} {r : K} (h : g.params.EchoAt g.scan i r) :
    ∃ d, g.nearestInFov = some d ∧ d ≤ r := by
  cases hd : g.nearestInFov with
  | none =>
    rw [CollisionGuard.nearestInFov, List.min?_eq_none_iff] at hd
    have hmem := mem_echoes.mpr ⟨i, h⟩
    rw [hd] at hmem
    cases hmem
  | some d => exact ⟨d, rfl, (nearestInFov_eq_some.mp hd).2 i r h⟩

theorem countValid_eq : g.countValid = g.params.validEchoes g.scan := by
  have hfst : g.scan.ranges = g.scan.ranges.zipIdx.map Prod.fst := (List.zipIdx_map_fst 0 _).symm
  rw [CollisionGuard.countValid, GuardParams.validEchoes, ScanData.beams, List.countP_filterMap]
  conv_rhs => rw [hfst, List.countP_map]
  refine List.countP_congr fun b _ => ?_
  obtain ⟨range, i⟩ := b
  cases range <;> simp

/-- With a scan, the guard stops for one of the four reasons of `Forced`. Without one it
never does. -/
theorem stops_iff_forced {recv : Int} (hrecv : g.recvTime = some recv) (now : Int) :
    g.Stops now ↔ g.params.Forced g.scan recv now := by
  have hblind : (0 < g.params.minValidEchoes ∧ (g.countValid : Int) < g.params.minValidEchoes) ↔
      (g.params.validEchoes g.scan : Int) < g.params.minValidEchoes := by
    rw [countValid_eq]
    omega
  have hnear : (∃ d ∈ g.nearestInFov, d ≤ g.params.stopDist) ↔
      ∃ i r, g.params.EchoAt g.scan i r ∧ r ≤ g.params.stopDist := by
    constructor
    · rintro ⟨d, hd, hle⟩
      obtain ⟨⟨i, hi⟩, -⟩ := nearestInFov_eq_some.mp hd
      exact ⟨i, d, hi, hle⟩
    · rintro ⟨i, r, hi, hle⟩
      obtain ⟨d, hd, hdr⟩ := exists_nearest_le hi
      exact ⟨d, hd, hdr.trans hle⟩
  rw [CollisionGuard.Stops, hrecv, GuardParams.Forced, ← hblind, ← hnear]
  simp only [Option.mem_some_iff, exists_eq_left']
  exact or_congr_right (or_congr_right or_comm)

/-! ## The three branches of `clamp`

Stopped, slowed down, or free. The ramp is the middle one. -/

/-- An echo in front that does not stop the robot is beyond the stopping distance. -/
theorem stopDist_lt_of_not_stops {recv now : Int} (hrecv : g.recvTime = some recv)
    (hstops : ¬ g.Stops now) {i : Nat} {r : K} (h : g.params.EchoAt g.scan i r) :
    g.params.stopDist < r := by
  rw [stops_iff_forced hrecv] at hstops
  exact not_le.mp fun hle => hstops (.inr (.inr (.inr ⟨i, r, h, hle⟩)))

/-- With nothing near the command passes. -/
theorem limit_of_far {cmdV : K} {now : Int} (hstops : ¬ g.Stops now)
    (hfar : ∀ i r, g.params.EchoAt g.scan i r → g.params.safeDist < r) :
    g.limit cmdV now = cmdV := by
  rw [CollisionGuard.limit, if_neg hstops]
  cases hd : g.nearestInFov with
  | none => rfl
  | some d =>
    obtain ⟨⟨i, hi⟩, -⟩ := nearestInFov_eq_some.mp hd
    exact if_neg (not_le.mpr (hfar i d hi))

/-- The slowdown of an echo at `d`. -/
def GuardParams.ramp (p : GuardParams K) (cmdV d : K) : K :=
  if d ≤ p.safeDist then
    cmdV * clamp ((d - p.stopDist) / (p.safeDist - p.stopDist)) 0 1
  else cmdV

theorem limit_of_nearest {cmdV : K} {now : Int} {d : K} (hstops : ¬ g.Stops now)
    (hd : g.nearestInFov = some d) : g.limit cmdV now = g.params.ramp cmdV d := by
  rw [CollisionGuard.limit, if_neg hstops, hd]
  rfl

variable [IsStrictOrderedRing K]

/-- A closer echo beyond the stopping distance slows the robot down more. -/
theorem ramp_mono {p : GuardParams K} {cmdV d e : K} (hcmd : 0 ≤ cmdV) (hd : p.stopDist < d)
    (hde : d ≤ e) : p.ramp cmdV d ≤ p.ramp cmdV e := by
  by_cases he : e ≤ p.safeDist
  · have hwidth : 0 < p.safeDist - p.stopDist := sub_pos.mpr (hd.trans_le (hde.trans he))
    rw [GuardParams.ramp, if_pos (hde.trans he), GuardParams.ramp, if_pos he]
    refine mul_le_mul_of_nonneg_left (clamp_mono ?_ zero_le_one) hcmd
    exact div_le_div_of_nonneg_right (sub_le_sub_right hde _) hwidth.le
  · rw [show p.ramp cmdV e = cmdV from if_neg he, GuardParams.ramp]
    split
    · exact mul_le_of_le_one_right hcmd (clamp_le zero_le_one)
    · exact le_rfl

/-! ## A closer echo

Replacing the range of one beam by a smaller one leaves the number of valid echoes as it was and
the other beams where they were. It can only force a stop, or bring the nearest echo closer. -/

section Replace

variable {p : GuardParams K} {scan : ScanData K} {i : Nat} {r r' : K}

omit [IsStrictOrderedRing K] in
/-- An echo is of a beam of the scan, -/
theorem GuardParams.EchoAt.lt_length (h : p.EchoAt scan i r) : i < scan.ranges.length := by
  obtain ⟨hlt, -⟩ := List.getElem?_eq_some_iff.mp h.1
  exact hlt

omit [IsStrictOrderedRing K] in
/-- and a closer one is where it was put. -/
theorem GuardParams.EchoAt.replace (h : p.EchoAt scan i r) (hecho : p.Echo r') :
    p.EchoAt (scan.replace i r') i r' :=
  ⟨List.getElem?_set_self h.lt_length, hecho, h.2.2⟩

omit [IsStrictOrderedRing K] in
/-- The other beams are as they were. -/
theorem GuardParams.EchoAt.replace_ne {j : Nat} {e : K} (h : p.EchoAt scan j e) (hne : j ≠ i) :
    p.EchoAt (scan.replace i r') j e :=
  ⟨(List.getElem?_set_ne (Ne.symm hne)).trans h.1, h.2⟩

omit [IsStrictOrderedRing K] in
/-- There are as many valid echoes. -/
theorem validEchoes_replace (h : p.EchoAt scan i r) (hecho : p.Echo r') :
    p.validEchoes (scan.replace i r') = p.validEchoes scan := by
  have hlt := h.lt_length
  have hget : scan.ranges[i] = some r := (List.getElem?_eq_some_iff.mp h.1).2
  have hmem : some r ∈ scan.ranges := List.mem_of_getElem? h.1
  have hpos : 0 < scan.ranges.countP fun range => range.any fun r => p.Echo r :=
    List.countP_pos_iff.mpr ⟨some r, hmem, by simpa using h.2.1⟩
  rw [GuardParams.validEchoes, GuardParams.validEchoes, ScanData.replace,
    List.countP_set hlt, hget]
  simp only [Option.any_some, h.2.1, hecho, decide_true, if_true]
  omega

omit [IsStrictOrderedRing K] in
/-- What forces a stop still does with a closer echo. -/
theorem GuardParams.Forced.replace {recv now : Int} (h : p.Forced scan recv now)
    (hr : p.EchoAt scan i r) (hecho : p.Echo r') (hle : r' ≤ r) :
    p.Forced (scan.replace i r') recv now := by
  obtain hstale | hempty | hblind | ⟨j, e, hj, hej⟩ := h
  · exact .inl hstale
  · have hlt := hr.lt_length
    rw [hempty] at hlt
    exact absurd hlt (Nat.not_lt_zero i)
  · exact .inr (.inr (.inl (by rwa [validEchoes_replace hr hecho])))
  · by_cases hji : j = i
    · obtain rfl := hji
      have hre : r = e := Option.some.inj (Option.some.inj (hr.1.symm.trans hj.1))
      exact .inr (.inr (.inr ⟨j, r', hr.replace hecho, hle.trans (hre ▸ hej)⟩))
    · exact .inr (.inr (.inr ⟨j, e, hj.replace_ne hji, hej⟩))

end Replace

/-- A guard whose scan shows one echo closer does not let the robot go faster. -/
theorem limit_replace_le {g g' : CollisionGuard K} {recv : Int} (hrecv : g.recvTime = some recv)
    (hrecv' : g'.recvTime = some recv) (hparams : g'.params = g.params) {i : Nat} {r r' : K}
    (hscan : g'.scan = g.scan.replace i r') (hr : g.params.EchoAt g.scan i r) (hpos : 0 < r')
    (hle : r' ≤ r) {cmdV : K} (hcmd : 0 ≤ cmdV) (now : Int) :
    g'.limit cmdV now ≤ g.limit cmdV now := by
  have hecho : g.params.Echo r' := ⟨hpos, hle.trans hr.2.1.2⟩
  by_cases hstops' : g'.Stops now
  · rw [show g'.limit cmdV now = 0 from if_pos hstops']
    exact (CollisionGuard.clamp_mem hcmd now).1
  · have hstops : ¬ g.Stops now := fun hstops => by
      rw [stops_iff_forced hrecv', hparams, hscan] at hstops'
      exact hstops' (((stops_iff_forced hrecv now).mp hstops).replace hr hecho hle)
    obtain ⟨d, hd, -⟩ := exists_nearest_le hr
    obtain ⟨⟨j, hj⟩, -⟩ := nearestInFov_eq_some.mp hd
    -- the nearest echo is still there, or is the one that came closer
    have hj' : ∃ k e, g'.params.EchoAt g'.scan k e ∧ e ≤ d := by
      rw [hparams, hscan]
      by_cases hji : j = i
      · obtain rfl := hji
        have hrd : r = d := Option.some.inj (Option.some.inj (hr.1.symm.trans hj.1))
        exact ⟨j, r', hr.replace hecho, hrd ▸ hle⟩
      · exact ⟨j, d, hj.replace_ne hji, le_rfl⟩
    obtain ⟨k, e, hk, hed⟩ := hj'
    obtain ⟨d', hd', hd'e⟩ := exists_nearest_le hk
    obtain ⟨⟨k', hk'⟩, -⟩ := nearestInFov_eq_some.mp hd'
    have hstop : g.params.stopDist < d' := hparams ▸ stopDist_lt_of_not_stops hrecv' hstops' hk'
    rw [limit_of_nearest hstops' hd', limit_of_nearest hstops hd, hparams]
    exact ramp_mono hcmd hstop (hd'e.trans hed)

/-! ## The contract

Each part is about one state of the guard; `guardAfter_scan` and `guardAfter_params` turn it into
one about the calls that led there. -/

omit [LinearOrder K] [IsStrictOrderedRing K] in
/-- A later scan, or the one in question. -/
theorem lastScan_append (new old : List (GuardCall K)) (scan : ScanData K) (t : Int) :
    lastScan (new ++ .setScan scan t :: old) = some ((lastScan new).getD (scan, t)) := by
  induction new with
  | nil => rfl
  | cons c new ih =>
    cases c with
    | setScan scan' t' => rfl
    | setParams q => exact ih
    | clearHold now => exact ih
    | clamp cmdV now => exact ih

omit [LinearOrder K] [IsStrictOrderedRing K] in
theorem paramsAfter_append (p : GuardParams K) (new old : List (GuardCall K)) :
    paramsAfter p (new ++ old) = paramsAfter (paramsAfter p old) new := by
  induction new with
  | nil => rfl
  | cons c new ih =>
    cases c with
    | setParams q => rfl
    | setScan scan now => exact ih
    | clearHold now => exact ih
    | clamp cmdV now => exact ih

/-- Where the code divides, the divisor is positive. -/
theorem ramp_divisor_pos (p : GuardParams K) (calls : List (GuardCall K)) {now : Int}
    (hstops : ¬ (guardAfter p calls).Stops now) {d : K}
    (hd : (guardAfter p calls).nearestInFov = some d)
    (hsafe : d ≤ (guardAfter p calls).params.safeDist) :
    0 < (guardAfter p calls).params.safeDist - (guardAfter p calls).params.stopDist := by
  obtain ⟨⟨i, hi⟩, -⟩ := nearestInFov_eq_some.mp hd
  cases hscan : lastScan calls with
  | none =>
    have hlt := hi.lt_length
    rw [(scan_of_no_scan hscan).1] at hlt
    exact absurd hlt (Nat.not_lt_zero i)
  | some latest =>
    obtain ⟨scan, recv⟩ := latest
    have hrecv := (scan_of_lastScan (p := p) hscan).2
    exact sub_pos.mpr ((stopDist_lt_of_not_stops hrecv hstops hi).trans_le hsafe)

/-- Of two sequences of calls that differ in one echo of one scan, the one with
the closer echo ends with the lower output. -/
theorem clamp_replace_le (p : GuardParams K) (new old : List (GuardCall K)) {scan : ScanData K}
    {t : Int} {i : Nat} {r r' : K} (hpos : 0 < r') (hle : r' ≤ r)
    (hr : (paramsAfter p (new ++ .setScan scan t :: old)).EchoAt scan i r) {cmdV : K}
    (hcmd : 0 ≤ cmdV) (now : Int) :
    ((guardAfter p (new ++ .setScan (scan.replace i r') t :: old)).clamp cmdV now).1 ≤
      ((guardAfter p (new ++ .setScan scan t :: old)).clamp cmdV now).1 := by
  have hlast := lastScan_append new old scan t
  have hlast' := lastScan_append new old (scan.replace i r') t
  have hparams : (guardAfter p (new ++ .setScan (scan.replace i r') t :: old)).params =
      (guardAfter p (new ++ .setScan scan t :: old)).params := by
    rw [guardAfter_params, guardAfter_params, paramsAfter_append, paramsAfter_append]
    rfl
  cases hnew : lastScan new with
  | none =>
    rw [hnew] at hlast hlast'
    obtain ⟨hscan, hrecv⟩ := scan_of_lastScan (p := p) hlast
    obtain ⟨hscan', hrecv'⟩ := scan_of_lastScan (p := p) hlast'
    refine limit_replace_le hrecv hrecv' hparams (i := i) (r := r) ?_ ?_ hpos hle hcmd now
    · rw [hscan, hscan']
    · rwa [hscan, guardAfter_params]
  | some latest =>
    -- a later scan hides both
    obtain ⟨scan', t'⟩ := latest
    rw [hnew] at hlast hlast'
    obtain ⟨hscan, hrecv⟩ := scan_of_lastScan (p := p) hlast
    obtain ⟨hscan', hrecv'⟩ := scan_of_lastScan (p := p) hlast'
    apply le_of_eq
    simp only [CollisionGuard.clamp, CollisionGuard.limit, CollisionGuard.Stops,
      CollisionGuard.nearestInFov, CollisionGuard.countValid, hparams, hscan, hscan', hrecv, hrecv']

/-- **The contract of `clamp`**, for any parameters and any earlier calls: the
output is between zero and the command and the divisor of the slowdown is not
zero; once there is a scan, a forced stop yields zero, no reason to stop and no
echo within `safe_dist` yields the command, and a closer echo never yields more. -/
theorem clamp_contract (p : GuardParams K) (calls : List (GuardCall K)) {cmdV : K}
    (hcmd : 0 ≤ cmdV) (now : Int) :
    (0 ≤ ((guardAfter p calls).clamp cmdV now).1 ∧
      ((guardAfter p calls).clamp cmdV now).1 ≤ cmdV) ∧
    (¬ (guardAfter p calls).Stops now → ∀ d, (guardAfter p calls).nearestInFov = some d →
      d ≤ (guardAfter p calls).params.safeDist →
      (guardAfter p calls).params.safeDist - (guardAfter p calls).params.stopDist ≠ 0) ∧
    (∀ scan recv, lastScan calls = some (scan, recv) →
      ((paramsAfter p calls).Forced scan recv now →
        ((guardAfter p calls).clamp cmdV now).1 = 0) ∧
      (¬ (paramsAfter p calls).Forced scan recv now →
        (∀ i r, (paramsAfter p calls).EchoAt scan i r → (paramsAfter p calls).safeDist < r) →
        ((guardAfter p calls).clamp cmdV now).1 = cmdV)) ∧
    (∀ new old scan t, calls = new ++ .setScan scan t :: old → ∀ i r r',
      (paramsAfter p calls).EchoAt scan i r → 0 < r' → r' ≤ r →
      ((guardAfter p (new ++ .setScan (scan.replace i r') t :: old)).clamp cmdV now).1 ≤
        ((guardAfter p calls).clamp cmdV now).1) := by
  refine ⟨CollisionGuard.clamp_mem hcmd now,
    fun hstops d hd hsafe => (ramp_divisor_pos p calls hstops hd hsafe).ne',
    fun scan recv hlast => ?_, ?_⟩
  · obtain ⟨hscan, hrecv⟩ := scan_of_lastScan (p := p) hlast
    have hstops := stops_iff_forced hrecv now
    rw [guardAfter_params, hscan] at hstops
    refine ⟨fun hforced => CollisionGuard.clamp_of_stops (hstops.mpr hforced), fun hfree hfar => ?_⟩
    refine limit_of_far (fun h => hfree (hstops.mp h)) ?_
    rwa [guardAfter_params, hscan]
  · rintro new old scan t rfl i r r' hr hpos hle
    exact clamp_replace_le p new old hpos hle hr hcmd now

/-- A scan with an echo halfway down the slowdown and one far away. -/
def slowingScan : ScanData ℚ := ⟨[some (11 / 20), none, some 5], 0, 1 / 10⟩

/-- The calls before the command: the guard is told that one echo is enough, and
gets the scan at time `0`. -/
def slowingCalls (scan : ScanData ℚ) : List (GuardCall ℚ) :=
  [.setScan scan 0, .setParams { minValidEchoes := 1 }]

/-- The robot gets half of its command. With the echo at 0.4 m it gets a fifth,
which is less, and 600 ms later the scan is stale and it gets nothing. -/
theorem clamp_contract_slowing :
    ((guardAfter {} (slowingCalls slowingScan)).clamp (1 / 2) 5).1 = 1 / 4 ∧
      ((guardAfter {} (slowingCalls slowingScan)).params.safeDist -
        (guardAfter {} (slowingCalls slowingScan)).params.stopDist ≠ 0) ∧
      ((guardAfter {} (slowingCalls (slowingScan.replace 0 (2 / 5)))).clamp (1 / 2) 5).1 = 1 / 10 ∧
      ((guardAfter {} (slowingCalls (slowingScan.replace 0 (2 / 5)))).clamp (1 / 2) 5).1 ≤
        ((guardAfter {} (slowingCalls slowingScan)).clamp (1 / 2) 5).1 ∧
      ((guardAfter {} (slowingCalls slowingScan)).clamp (1 / 2) 600000005).1 = 0 := by
  have hcmd : (0 : ℚ) ≤ 1 / 2 := by norm_num
  have hcontract := clamp_contract {} (slowingCalls slowingScan) hcmd 5
  have hstale := clamp_contract {} (slowingCalls slowingScan) hcmd 600000005
  refine ⟨by decide +kernel, ?_, by decide +kernel, ?_, ?_⟩
  · exact hcontract.2.1 (by decide +kernel) (11 / 20) (by decide +kernel) (by decide +kernel)
  · exact hcontract.2.2.2 [] _ slowingScan 0 rfl 0 (11 / 20) (2 / 5)
      ⟨rfl, by decide +kernel, by decide +kernel⟩ (by norm_num) (by norm_num)
  · exact (hstale.2.2.1 slowingScan 0 rfl).1 (.inl (by decide +kernel))

end AmrFramework.Execution
