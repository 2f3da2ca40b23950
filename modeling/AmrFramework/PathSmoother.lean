import AmrFramework.OccupancyGrid

/-!
# The path smoother

`PathSmoother` samples every edge of a polyline, and puts a circular arc where an edge turns
into the next. An edge is sampled at equal steps from its start to its end, also when an arc
begins before that end, so the samples of an edge keep clear of the arc only where there is
none (`advances_iff`).
-/

namespace AmrFramework.Planning

universe u

variable {K : Type u} [Field K] [LinearOrder K] [CMath K]

/-- `PathSmoother`, with its parameters. -/
structure PathSmoother (K : Type u) [Field K] : Type u where
  sampleSpacing : K := 0.05
  /-- radius at rounded corners -/
  cornerRadius : K := 0.20
  /-- above this angle a corner is straight -/
  straightDeg : K := 175.0

/-- A round of the loop: the edge from `prev` to `cur`, and where the path goes on. `next` is
absent on the last edge, whose end is no corner. -/
structure Edge (K : Type u) : Type u where
  prev : Waypoint K
  cur : Waypoint K
  next : Option (Waypoint K)

/-- The rounds of the loop. -/
def edges : List (Waypoint K) → List (Edge K)
  | prev :: cur :: rest => ⟨prev, cur, rest.head?⟩ :: edges (cur :: rest)
  | _ => []

/-! ## Angles

The loops of `normalize_angle` are written with fuel, and the fuel is the number of turns in the
angle, which `normalizeAngle_spec` shows to be enough. -/

/-- `while (a > M_PI) a -= 2 * M_PI`, for at most `fuel` rounds. -/
def turnDown : Nat → K → K
  | 0, a => a
  | fuel + 1, a => if CMath.pi < a then turnDown fuel (a - 2 * CMath.pi) else a

/-- `while (a < -M_PI) a += 2 * M_PI`, for at most `fuel` rounds. -/
def turnUp : Nat → K → K
  | 0, a => a
  | fuel + 1, a => if a < -CMath.pi then turnUp fuel (a + 2 * CMath.pi) else a

/-- `normalize_angle`. Neither loop takes more rounds than there are turns in the angle, so the
fuel never decides the result. -/
def normalizeAngle [FloorRing K] (a : K) : K :=
  let turns := ⌈|a| / (2 * CMath.pi)⌉.toNat
  turnUp turns (turnDown turns a)

/-- `dist`. -/
def dist (a b : Waypoint K) : K :=
  let dx := a.x - b.x
  let dy := a.y - b.y
  CMath.sqrt (dx * dx + dy * dy)

/-- The direction from one point to another. -/
def direction (a b : Waypoint K) : K := CMath.atan2 (b.y - a.y) (b.x - a.x)

variable [FloorRing K]

/-- `turn`, between the directions of two edges. -/
def turnAt (prev cur next : Waypoint K) : K :=
  |normalizeAngle (direction cur next - direction prev cur)|

namespace PathSmoother

variable (p : PathSmoother K)

/-- `round`: the corner at the end of an edge is rounded. It has to be sharp enough, and both
edges have to be at least as long as the radius. -/
def Rounds (e : Edge K) : Prop :=
  ∃ next ∈ e.next, (CMath.pi - turnAt e.prev e.cur next) * 180.0 / CMath.pi < p.straightDeg ∧
    p.cornerRadius ≤ dist e.prev e.cur ∧ p.cornerRadius ≤ dist e.cur next

instance (e : Edge K) : Decidable (p.Rounds e) :=
  inferInstanceAs (Decidable (∃ next ∈ e.next, _))

/-- `max(1, static_cast<int>(length / sample_spacing))`. Negative lengths give one step, like
those that are shorter than the spacing. -/
def steps (length : K) : Int := max 1 (truncate (length / p.sampleSpacing))

/-- The samples of an edge. `cutIn` is what the arc takes off the end of the edge, and it is only
used to count the samples. -/
def edgeSamples (e : Edge K) : List (Waypoint K) :=
  let cutIn := if p.Rounds e then p.cornerRadius else 0
  -- the cut makes the steps fewer, not the way shorter
  let inSteps := p.steps (dist e.prev e.cur - cutIn)
  (List.range inSteps.toNat).map fun s =>
    let t := min 1.0 (((s + 1 : Nat) : K) / (inSteps : K))
    ⟨e.prev.x + (e.cur.x - e.prev.x) * t, e.prev.y + (e.cur.y - e.prev.y) * t⟩

/-- `arc_start`, on the incoming edge. -/
def arcStart (prev cur : Waypoint K) : Waypoint K :=
  let inAngle := direction prev cur
  ⟨cur.x - CMath.cos inAngle * p.cornerRadius, cur.y - CMath.sin inAngle * p.cornerRadius⟩

/-- `arc_end`, on the outgoing edge. -/
def arcEnd (cur next : Waypoint K) : Waypoint K :=
  let outAngle := direction cur next
  ⟨cur.x + CMath.cos outAngle * p.cornerRadius, cur.y + CMath.sin outAngle * p.cornerRadius⟩

/-- `center`. -/
def center (prev cur next : Waypoint K) : Waypoint K :=
  let inX := CMath.cos (direction prev cur)
  let inY := CMath.sin (direction prev cur)
  let turn := turnAt prev cur next
  -- a turn to the right is positive, too
  let nx := if 0 < turn then -inY else inY
  let ny := if 0 < turn then inX else -inX
  ⟨(p.arcStart prev cur).x + nx * p.cornerRadius, (p.arcStart prev cur).y + ny * p.cornerRadius⟩

/-- `a_start`. -/
def startAngle (prev cur next : Waypoint K) : K :=
  direction (p.center prev cur next) (p.arcStart prev cur)

/-- `a_end`. -/
def endAngle (prev cur next : Waypoint K) : K :=
  direction (p.center prev cur next) (p.arcEnd cur next)

/-- `sweep`: the angle of the arc, with the sign of the turn. As `turn` is never negative, a
negative sweep is replaced by one a whole turn later. -/
def sweep (prev cur next : Waypoint K) : K :=
  let sweep := normalizeAngle (p.endAngle prev cur next - p.startAngle prev cur next)
  if sweep * turnAt prev cur next < 0 then
    if 0 < sweep then sweep - 2 * CMath.pi else sweep + 2 * CMath.pi
  else sweep

/-- The samples of an arc. -/
def arcSamples (prev cur next : Waypoint K) : List (Waypoint K) :=
  let sweep := p.sweep prev cur next
  let arcSteps := p.steps (p.cornerRadius * |sweep|)
  (List.range arcSteps.toNat).map fun s =>
    let theta := p.startAngle prev cur next + sweep * (((s + 1 : Nat) : K) / (arcSteps : K))
    ⟨(p.center prev cur next).x + p.cornerRadius * CMath.cos theta,
      (p.center prev cur next).y + p.cornerRadius * CMath.sin theta⟩

/-- The arc at the end of an edge, if there is one. -/
def arcs (e : Edge K) : List (Waypoint K) :=
  if p.Rounds e then e.next.toList.flatMap (p.arcSamples e.prev e.cur) else []

/-- What a round of the loop adds to the path: first the edge, and then the arc at its end. -/
def emit (e : Edge K) : List (Waypoint K) := p.edgeSamples e ++ p.arcs e

/-- `smooth`: the first waypoint, what each round adds, and the last waypoint. A path of fewer
than three waypoints has no corner and is returned as it is. -/
def smooth (path : List (Waypoint K)) : List (Waypoint K) :=
  if path.length < 3 then path
  else
    let out := path.head?.toList ++ (edges path).flatMap p.emit
    -- the final waypoint is exact
    match out.getLast?, path.getLast? with
    | some last, some back => if last.x ≠ back.x ∨ last.y ≠ back.y then out ++ [back] else out
    | none, some back => out ++ [back]
    | _, none => out

end PathSmoother

/-! ## Whole turns

Each loop takes whole turns off or puts them on, and stops on its side of the interval. The one
that runs second does not undo what the first one did. -/

theorem turnDown_spec {fuel : ℕ} {a : ℝ} (hfuel : a ≤ Real.pi + 2 * Real.pi * fuel) :
    turnDown fuel a ≤ Real.pi ∧ (∃ m : ℤ, turnDown fuel a = a + 2 * Real.pi * m) ∧
      (-Real.pi ≤ a → -Real.pi ≤ turnDown fuel a) := by
  induction fuel generalizing a with
  | zero =>
    rw [Nat.cast_zero, mul_zero, add_zero] at hfuel
    exact ⟨hfuel, ⟨0, by simp [turnDown]⟩, id⟩
  | succ fuel ih =>
    rw [turnDown, CMath.pi_real]
    split_ifs with hlt
    · push_cast at hfuel
      obtain ⟨hle, ⟨m, hm⟩, hge⟩ := ih (a := a - 2 * Real.pi) (by linarith)
      refine ⟨hle, ⟨m - 1, ?_⟩, fun _ => hge (by linarith)⟩
      rw [hm]
      push_cast
      ring
    · exact ⟨not_lt.mp hlt, ⟨0, by simp⟩, id⟩

theorem turnUp_spec {fuel : ℕ} {a : ℝ} (hfuel : -Real.pi - 2 * Real.pi * fuel ≤ a) :
    -Real.pi ≤ turnUp fuel a ∧ (∃ m : ℤ, turnUp fuel a = a + 2 * Real.pi * m) ∧
      (a ≤ Real.pi → turnUp fuel a ≤ Real.pi) := by
  induction fuel generalizing a with
  | zero =>
    rw [Nat.cast_zero, mul_zero, sub_zero] at hfuel
    exact ⟨hfuel, ⟨0, by simp [turnUp]⟩, id⟩
  | succ fuel ih =>
    rw [turnUp, CMath.pi_real]
    split_ifs with hlt
    · push_cast at hfuel
      obtain ⟨hge, ⟨m, hm⟩, hle⟩ := ih (a := a + 2 * Real.pi) (by linarith)
      refine ⟨hge, ⟨m + 1, ?_⟩, fun _ => hle (by linarith)⟩
      rw [hm]
      push_cast
      ring
    · exact ⟨not_lt.mp hlt, ⟨0, by simp⟩, id⟩

/-- The loops end: the angle is in `[-π, π]`, and whole turns from the one given. Both ends of
the interval can be returned. -/
theorem normalizeAngle_spec (a : ℝ) :
    -Real.pi ≤ normalizeAngle a ∧ normalizeAngle a ≤ Real.pi ∧
      ∃ m : ℤ, normalizeAngle a = a + 2 * Real.pi * m := by
  obtain ⟨turns, hturns⟩ : ∃ turns, turns = ⌈|a| / (2 * CMath.pi)⌉.toNat := ⟨_, rfl⟩
  have hceil : |a| ≤ 2 * Real.pi * turns := by
    have hle : |a| / (2 * Real.pi) ≤ turns := by
      rw [hturns]
      exact (Int.le_ceil _).trans (by exact_mod_cast Int.self_le_toNat _)
    rw [div_le_iff₀ Real.two_pi_pos] at hle
    linarith
  have habs := abs_le.mp hceil
  have hpi := Real.pi_pos
  have hround : a ≤ Real.pi + 2 * Real.pi * turns := by linarith
  obtain ⟨hle, ⟨m, hm⟩, hkeep⟩ := turnDown_spec hround
  have hfuel : -Real.pi - 2 * Real.pi * turns ≤ turnDown turns a := by
    obtain hlo | hlo := le_total (-Real.pi) a
    · linarith [hkeep hlo, mul_nonneg Real.two_pi_pos.le (Nat.cast_nonneg (α := ℝ) turns)]
    · -- below zero the first loop does nothing
      have hsame : turnDown turns a = a := by
        cases turns with
        | zero => rfl
        | succ n => exact if_neg (by rw [CMath.pi_real]; linarith)
      rw [hsame]
      linarith
  obtain ⟨hge, ⟨m', hm'⟩, hkeep'⟩ := turnUp_spec hfuel
  rw [normalizeAngle, ← hturns]
  refine ⟨hge, hkeep' hle, m + m', ?_⟩
  rw [hm', hm]
  push_cast
  ring

/-- An angle in `[-π, π]` is left as it is. -/
theorem normalizeAngle_of_mem {a : ℝ} (hlo : -Real.pi ≤ a) (hhi : a ≤ Real.pi) :
    normalizeAngle a = a := by
  have hdown : ∀ fuel, turnDown fuel a = a := by
    rintro (_ | fuel)
    · rfl
    · exact if_neg (not_lt.mpr hhi)
  have hup : ∀ fuel, turnUp fuel a = a := by
    rintro (_ | fuel)
    · rfl
    · exact if_neg (not_lt.mpr hlo)
  rw [normalizeAngle, hdown, hup]

/-! ## Edges

The samples of an edge are put in the form of equal steps from its start to its end; from there
on nothing is asked about how many steps there are, only that there is one. -/

/-- A round of the loop is for two waypoints in a row, and `next` is the one behind them. -/
theorem mem_edges {path : List (Waypoint ℝ)} {e : Edge ℝ} (he : e ∈ edges path) :
    ∃ before after, path = before ++ e.prev :: e.cur :: after ∧ e.next = after.head? := by
  match path with
  | [] => cases he
  | [a] => cases he
  | prev :: cur :: rest =>
    have hedges : edges (prev :: cur :: rest) = ⟨prev, cur, rest.head?⟩ :: edges (cur :: rest) :=
      rfl
    rw [hedges, List.mem_cons] at he
    rcases he with rfl | he
    · exact ⟨[], rest, rfl, rfl⟩
    · obtain ⟨before, after, hpath, hnext⟩ := mem_edges he
      exact ⟨prev :: before, after, congrArg (List.cons prev) hpath, hnext⟩

theorem prev_ne_cur {path : List (Waypoint ℝ)} (hdistinct : path.Nodup) {e : Edge ℝ}
    (he : e ∈ edges path) : e.prev ≠ e.cur := by
  obtain ⟨before, after, rfl, -⟩ := mem_edges he
  intro heq
  have hedge := List.nodup_cons.mp (List.nodup_append.mp hdistinct).2.1
  rw [heq] at hedge
  exact hedge.1 List.mem_cons_self

theorem dist_nonneg (a b : Waypoint ℝ) : 0 ≤ dist a b := Real.sqrt_nonneg _

theorem dist_self (a : Waypoint ℝ) : dist a a = 0 := by
  simp [dist]

theorem dist_eq_zero {a b : Waypoint ℝ} : dist a b = 0 ↔ a = b := by
  constructor
  · intro h
    have hx := mul_self_nonneg (a.x - b.x)
    have hy := mul_self_nonneg (a.y - b.y)
    rw [dist, CMath.sqrt_real, Real.sqrt_eq_zero (add_nonneg hx hy),
      add_eq_zero_iff_of_nonneg hx hy, mul_self_eq_zero, mul_self_eq_zero, sub_eq_zero,
      sub_eq_zero] at h
    cases a
    cases b
    exact congrArg₂ Waypoint.mk h.1 h.2
  · rintro rfl
    exact dist_self a

/-- The point at a fraction of the way. -/
def partway (a b : Waypoint ℝ) (t : ℝ) : Waypoint ℝ :=
  ⟨a.x + (b.x - a.x) * t, a.y + (b.y - a.y) * t⟩

theorem partway_one (a b : Waypoint ℝ) : partway a b 1 = b := by
  simp [partway]

theorem dist_partway (a b : Waypoint ℝ) {t : ℝ} (ht : 0 ≤ t) :
    dist a (partway a b t) = t * dist a b := by
  have hsquare : (a.x - (partway a b t).x) * (a.x - (partway a b t).x) +
      (a.y - (partway a b t).y) * (a.y - (partway a b t).y) =
      t ^ 2 * ((a.x - b.x) * (a.x - b.x) + (a.y - b.y) * (a.y - b.y)) := by
    simp only [partway]
    ring
  simp only [dist, CMath.sqrt_real]
  rw [hsquare, Real.sqrt_mul (sq_nonneg t), Real.sqrt_sq ht]

namespace PathSmoother

variable (p : PathSmoother ℝ)

theorem one_le_steps (length : ℝ) : 1 ≤ (p.steps length).toNat := by
  have hone : 1 ≤ p.steps length := le_max_left _ _
  omega

theorem cast_steps (length : ℝ) : ((p.steps length : ℤ) : ℝ) = (p.steps length).toNat := by
  have hone := p.one_le_steps length
  have hsteps : ((p.steps length).toNat : ℤ) = p.steps length := Int.toNat_of_nonneg (by omega)
  exact_mod_cast hsteps.symm

/-- The last of some equal steps is at the end. The quotient is one there, so nothing is left to
rounding. -/
theorem getLast?_map_steps {n : ℕ} (hn : 1 ≤ n) (f : ℝ → Waypoint ℝ) :
    ((List.range n).map fun s => f ((s + 1 : ℕ) / n)).getLast? = some (f 1) := by
  obtain ⟨n, rfl⟩ := Nat.exists_eq_add_of_le' hn
  have hone : ((n + 1 : ℕ) : ℝ) / (n + 1 : ℕ) = 1 :=
    div_self (Nat.cast_ne_zero.mpr (Nat.succ_ne_zero n))
  rw [List.getLast?_map, List.range_succ, List.getLast?_concat, Option.map_some, hone]

/-- How many samples an edge gets. -/
noncomputable def edgeSteps (e : Edge ℝ) : ℕ :=
  (p.steps (dist e.prev e.cur - if p.Rounds e then p.cornerRadius else 0)).toNat

/-- The samples of an edge lie at equal steps, up to its end. The cut at a rounded corner is in
the number of steps, and not in their length. -/
theorem edgeSamples_eq (e : Edge ℝ) :
    p.edgeSamples e = (List.range (p.edgeSteps e)).map fun s =>
      partway e.prev e.cur ((s + 1 : ℕ) / p.edgeSteps e) := by
  refine List.map_congr_left fun s hs => ?_
  have hs : s + 1 ≤ p.edgeSteps e := List.mem_range.mp hs
  have hle : ((s + 1 : ℕ) : ℝ) / p.edgeSteps e ≤ 1 :=
    div_le_one_of_le₀ (by exact_mod_cast hs) (Nat.cast_nonneg _)
  -- so `min(1, ..)` never takes the one
  have hmin : min 1.0 (((s + 1 : ℕ) : ℝ) / p.edgeSteps e) = ((s + 1 : ℕ) : ℝ) / p.edgeSteps e := by
    norm_num at hle ⊢
    exact hle
  simp only [p.cast_steps]
  exact congrArg (partway e.prev e.cur) hmin

/-- The last sample of an edge is its end. This holds for rounded corners as well, which is what
goes wrong there. -/
theorem getLast?_edgeSamples (e : Edge ℝ) : (p.edgeSamples e).getLast? = some e.cur := by
  rw [p.edgeSamples_eq, edgeSteps, getLast?_map_steps (p.one_le_steps _) (partway e.prev e.cur),
    partway_one]

theorem arcs_of_none {e : Edge ℝ} (hnext : e.next = none) : p.arcs e = [] := by
  rw [arcs, hnext]
  exact ite_self _

/-- The loop ends at the last waypoint. -/
theorem getLast?_flatMap_emit (prev cur : Waypoint ℝ) (rest : List (Waypoint ℝ)) :
    ((edges (prev :: cur :: rest)).flatMap p.emit).getLast? = (cur :: rest).getLast? := by
  induction rest generalizing prev cur with
  | nil =>
    -- no corner follows the last edge, and its samples end at the last waypoint
    have hedges : edges [prev, cur] = [⟨prev, cur, none⟩] := rfl
    rw [hedges, List.flatMap_singleton, emit, p.arcs_of_none rfl, List.append_nil,
      p.getLast?_edgeSamples]
    rfl
  | cons next rest ih =>
    have hedges : edges (prev :: cur :: next :: rest) =
        ⟨prev, cur, some next⟩ :: edges (cur :: next :: rest) := rfl
    rw [hedges, List.flatMap_cons, List.getLast?_append, ih cur next,
      List.getLast?_cons_cons]
    rw [List.getLast?_eq_some_getLast (List.cons_ne_nil next rest)]
    rfl

/-- What the loop adds for an edge. A path of fewer than three waypoints is left as it is, which
is the same as adding the end of its one edge. -/
noncomputable def emitted (path : List (Waypoint ℝ)) (e : Edge ℝ) : List (Waypoint ℝ) :=
  if path.length < 3 then [e.cur] else p.edgeSamples e

/-- The smoothed path: the first waypoint, and for each edge its samples and the arc. -/
theorem smooth_eq (path : List (Waypoint ℝ)) :
    p.smooth path =
      path.head?.toList ++ (edges path).flatMap fun e => p.emitted path e ++ p.arcs e := by
  match path with
  | [] => rfl
  | [a] => rfl
  | [a, b] =>
    have hedges : edges [a, b] = [⟨a, b, none⟩] := rfl
    have hshort : [a, b].length < 3 := by simp
    rw [smooth, if_pos hshort, hedges, List.flatMap_singleton, p.arcs_of_none rfl, emitted,
      if_pos hshort]
    rfl
  | a :: b :: c :: rest =>
    -- the loop ends at the last waypoint, so that nothing is added behind it
    have hlong : ¬ (a :: b :: c :: rest).length < 3 := by simp
    have hemit : (edges (a :: b :: c :: rest)).flatMap
        (fun e => p.emitted (a :: b :: c :: rest) e ++ p.arcs e) =
        (edges (a :: b :: c :: rest)).flatMap p.emit := by
      simp only [emitted, if_neg hlong]
      rfl
    have hlast := p.getLast?_flatMap_emit a b (c :: rest)
    rw [List.getLast?_eq_some_getLast (List.cons_ne_nil b (c :: rest))] at hlast
    have hback : (a :: b :: c :: rest).getLast? =
        some ((b :: c :: rest).getLast (List.cons_ne_nil b (c :: rest))) := by
      rw [List.getLast?_cons_cons, List.getLast?_eq_some_getLast (List.cons_ne_nil b (c :: rest))]
    rw [hemit]
    simp only [smooth, if_neg hlong, List.head?_cons, Option.toList_some, List.getLast?_append,
      hlast, hback, Option.some_or]
    simp

/-! ## Samples that advance

That the samples of an edge advance holds without a condition. What can go wrong is the arc: it
begins one radius before the corner, and the samples of the edge go on to the corner. -/

/-- The samples of an edge advance from its start, and keep clear of the arc at its end: they end
where the rounding of the corner begins. -/
structure Advances (path : List (Waypoint ℝ)) (e : Edge ℝ) : Prop where
  forward : (e.prev :: p.emitted path e).Pairwise fun a b => dist e.prev a < dist e.prev b
  clear : p.Rounds e → ∀ s ∈ p.emitted path e, dist e.prev s ≤ dist e.prev e.cur - p.cornerRadius

variable {p} {path : List (Waypoint ℝ)} {e : Edge ℝ}

/-- The end of an edge is always among its samples, so the samples keep clear of an arc only if
the arc begins at the end of its edge. -/
theorem cur_mem_emitted (p : PathSmoother ℝ) (path : List (Waypoint ℝ)) (e : Edge ℝ) :
    e.cur ∈ p.emitted path e := by
  rw [emitted]
  split_ifs
  · exact List.mem_singleton_self _
  · exact List.mem_of_getLast? (p.getLast?_edgeSamples e)

/-- No sample of an edge lies beyond its end. -/
theorem dist_emitted_le {s : Waypoint ℝ} (hs : s ∈ p.emitted path e) :
    dist e.prev s ≤ dist e.prev e.cur := by
  rw [emitted] at hs
  split_ifs at hs
  · rw [List.mem_singleton.mp hs]
  · rw [p.edgeSamples_eq] at hs
    obtain ⟨i, hi, rfl⟩ := List.mem_map.mp hs
    have hi : i + 1 ≤ p.edgeSteps e := List.mem_range.mp hi
    rw [dist_partway _ _ (by positivity)]
    refine mul_le_of_le_one_left (dist_nonneg _ _) ?_
    exact div_le_one_of_le₀ (by exact_mod_cast hi) (Nat.cast_nonneg _)

/-- The samples of an edge advance strictly. -/
theorem emitted_forward (p : PathSmoother ℝ) (path : List (Waypoint ℝ)) (hne : e.prev ≠ e.cur) :
    (e.prev :: p.emitted path e).Pairwise fun a b => dist e.prev a < dist e.prev b := by
  have hlength : 0 < dist e.prev e.cur :=
    lt_of_le_of_ne (dist_nonneg _ _) (Ne.symm (mt dist_eq_zero.mp hne))
  rw [emitted]
  split_ifs
  · simpa [dist_self] using hlength
  · have hsteps : (0 : ℝ) < p.edgeSteps e := by exact_mod_cast p.one_le_steps _
    rw [p.edgeSamples_eq, List.pairwise_cons, List.pairwise_map]
    constructor
    · intro s hs
      obtain ⟨i, -, rfl⟩ := List.mem_map.mp hs
      rw [dist_self, dist_partway _ _ (by positivity)]
      positivity
    · refine List.pairwise_lt_range.imp fun {i j} hij => ?_
      have hcast : ((i + 1 : ℕ) : ℝ) < (j + 1 : ℕ) := by exact_mod_cast Nat.succ_lt_succ hij
      rw [dist_partway _ _ (by positivity), dist_partway _ _ (by positivity)]
      exact mul_lt_mul_of_pos_right (div_lt_div_of_pos_right hcast hsteps) hlength

/-- **No backtracking**, for every polyline of distinct points: the samples of all edges advance,
and keep clear of the arcs, exactly when no arc takes anything off its edge. The samples go up to
the corner itself, and the arc then begins behind the last of them. -/
theorem advances_iff (p : PathSmoother ℝ) (hdistinct : path.Nodup) :
    (∀ e ∈ edges path, p.Advances path e) ↔ ∀ e ∈ edges path, p.Rounds e → p.cornerRadius ≤ 0 := by
  constructor
  · intro hadvances e he hround
    -- the last sample is the corner itself, which the arc has left behind
    have hclear := (hadvances e he).clear hround e.cur (p.cur_mem_emitted path e)
    linarith
  · intro hround e he
    refine ⟨p.emitted_forward path (prev_ne_cur hdistinct he), fun hrounds s hs => ?_⟩
    have hradius := hround e he hrounds
    have hle := dist_emitted_le hs
    linarith

end PathSmoother

/-! ## A corner

The corner of the example lies to the left and is rounded, as the two edges are longer than the
radius. -/

/-- One metre ahead, and one to the left. -/
def leftCorner : List (Waypoint ℝ) := [⟨0, 0⟩, ⟨1, 0⟩, ⟨1, 1⟩]

theorem nodup_leftCorner : leftCorner.Nodup := by
  simp [leftCorner]

theorem direction_ahead : direction (⟨0, 0⟩ : Waypoint ℝ) ⟨1, 0⟩ = 0 := by
  have harg : Complex.arg ⟨1, 0⟩ = 0 := Complex.arg_ofReal_of_nonneg zero_le_one
  rw [direction, CMath.atan2_real, sub_zero, sub_zero, harg]

theorem direction_left : direction (⟨1, 0⟩ : Waypoint ℝ) ⟨1, 1⟩ = Real.pi / 2 := by
  have harg : Complex.arg ⟨0, 1⟩ = Real.pi / 2 := Complex.arg_I
  rw [direction, CMath.atan2_real, sub_zero, sub_self, harg]

/-- The corner is rounded. -/
theorem rounds_leftCorner : ({} : PathSmoother ℝ).Rounds ⟨⟨0, 0⟩, ⟨1, 0⟩, some ⟨1, 1⟩⟩ := by
  have hpi := Real.pi_pos
  have hturn : turnAt (⟨0, 0⟩ : Waypoint ℝ) ⟨1, 0⟩ ⟨1, 1⟩ = Real.pi / 2 := by
    rw [turnAt, direction_ahead, direction_left, sub_zero,
      normalizeAngle_of_mem (by linarith) (by linarith), abs_of_pos (by linarith)]
  refine ⟨⟨1, 1⟩, rfl, ?_, ?_, ?_⟩
  · rw [hturn, CMath.pi_real, div_lt_iff₀ hpi]
    norm_num
    linarith
  · norm_num [dist]
  · norm_num [dist]

theorem advances_leftCorner :
    (∀ e ∈ edges leftCorner, ({} : PathSmoother ℝ).Advances leftCorner e) ↔
      ∀ e ∈ edges leftCorner, ({} : PathSmoother ℝ).Rounds e →
        ({} : PathSmoother ℝ).cornerRadius ≤ 0 :=
  ({} : PathSmoother ℝ).advances_iff nodup_leftCorner

/-- The samples of the first edge go on to the corner, past the begin of the arc. -/
theorem not_advances :
    leftCorner.Nodup ∧ ∃ e ∈ edges leftCorner, ({} : PathSmoother ℝ).Rounds e ∧
      ∃ s ∈ ({} : PathSmoother ℝ).emitted leftCorner e,
        dist e.prev e.cur - ({} : PathSmoother ℝ).cornerRadius < dist e.prev s := by
  refine ⟨nodup_leftCorner, ⟨⟨0, 0⟩, ⟨1, 0⟩, some ⟨1, 1⟩⟩, List.mem_cons_self, rounds_leftCorner,
    ⟨1, 0⟩, PathSmoother.cur_mem_emitted _ _ _, ?_⟩
  norm_num

end AmrFramework.Planning
