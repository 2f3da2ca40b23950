import AmrFramework.GridUpdater

/-!
# The edges of the grid

`world_to_grid` rounds towards zero, so the cells of the first row and of the first
column are twice as long as the others: they take in the points up to one cell
before the origin. Everything else outside the grid stays outside
(`keepsOut_iff`).

The planner and the updater use the same conversion, so both are wrong in the same way: a pose
before the origin is planned from, and an object there is marked, in a cell of the grid.
-/

namespace AmrFramework.Planning

open OccupancyGrid

/-- The point lies in the half-open square of a cell. The squares of different cells have no
point in common. -/
def InSquare (g : OccupancyGrid ℝ) (c : Cell) (wx wy : ℝ) : Prop :=
  (g.origin.x + c.x * g.resolution ≤ wx ∧ wx < g.origin.x + (c.x + 1) * g.resolution) ∧
    g.origin.y + c.y * g.resolution ≤ wy ∧ wy < g.origin.y + (c.y + 1) * g.resolution

/-- The point lies in the rectangle of the grid. -/
def InRect (g : OccupancyGrid ℝ) (wx wy : ℝ) : Prop :=
  (g.origin.x ≤ wx ∧ wx < g.origin.x + g.width * g.resolution) ∧
    g.origin.y ≤ wy ∧ wy < g.origin.y + g.height * g.resolution

/-- The point lies in the strip, one cell wide, before the first column or the first row. The
conversion truncates towards zero, so such a point gets index 0 as well. -/
structure InStrip (g : OccupancyGrid ℝ) (wx wy : ℝ) : Prop where
  width_pos : 0 < g.width
  height_pos : 0 < g.height
  x : g.origin.x - g.resolution < wx ∧ wx < g.origin.x + g.width * g.resolution
  y : g.origin.y - g.resolution < wy ∧ wy < g.origin.y + g.height * g.resolution
  before : wx < g.origin.x ∨ wy < g.origin.y

/-- The grid knows which points are not its own: a point has a cell of the grid exactly when it
lies in the square of that cell, and obstacles or beams at a point outside raise no cell to
lethal. -/
structure KeepsOut (g : OccupancyGrid ℝ) (wx wy : ℝ) : Prop where
  cell : ∀ c, g.Inside c → (worldToGrid g wx wy = c ↔ InSquare g c wx wy)
  inflate : ¬InRect g wx wy → ∀ updater : GridUpdater ℝ, 0 ≤ updater.costScalingFactor →
    ∀ c, g.Inside c → (updater.inflate g wx wy).costAt c = lethal → g.costAt c = lethal
  trace : ¬InRect g wx wy → ∀ rx ry h, bresenham g rx ry wx wy = some h →
    ∀ c, g.Inside c → h.costAt c = lethal → g.costAt c = lethal
  endpoint : ¬InRect g wx wy → ¬g.Inside (worldToGrid g wx wy)

/-! ## One axis

A coordinate is `static_cast<int>((w - origin) / resolution)`, which rounds down for what is not
negative and up for what is. -/

section Axis

variable {x w o r : ℝ} {n : Int}

/-- The numbers that are truncated to an integer that is not negative, -/
theorem truncate_eq_iff (hn : 0 ≤ n) :
    truncate x = n ↔ (n ≤ x ∧ x < n + 1) ∨ (n = 0 ∧ -1 < x ∧ x < 0) := by
  rw [truncate]
  split_ifs with hx
  · rw [Int.floor_eq_iff]
    exact ⟨.inl, fun h => h.resolve_right fun hneg => absurd hx (not_le.mpr hneg.2.2)⟩
  · rw [Int.ceil_eq_iff]
    constructor
    · rintro ⟨hlo, -⟩
      have hlt : (n : ℝ) < (1 : Int) := by
        push_cast
        linarith
      obtain rfl : n = 0 := by
        have := Int.cast_lt.mp hlt
        omega
      exact .inr ⟨rfl, by simpa using hlo, not_le.mp hx⟩
    · rintro (⟨hlo, -⟩ | ⟨rfl, hlo, hhi⟩)
      · exact absurd ((Int.cast_nonneg hn).trans hlo) hx
      · exact ⟨by simpa using hlo, by simpa using hhi.le⟩

/-- and to one of the first `n` such integers. -/
theorem truncate_mem_iff : (0 ≤ truncate x ∧ truncate x < n) ↔ 0 < n ∧ -1 < x ∧ x < n := by
  constructor
  · rintro ⟨hlo, hhi⟩
    have hn : ((truncate x : Int) : ℝ) + 1 ≤ n := by exact_mod_cast hhi
    rcases (truncate_eq_iff hlo).mp rfl with ⟨hle, hlt⟩ | ⟨-, hle, hlt⟩
    · have hpos : (0 : ℝ) ≤ truncate x := Int.cast_nonneg hlo
      exact ⟨by omega, by linarith, by linarith⟩
    · have hpos : (0 : ℝ) < n := Int.cast_pos.mpr (by omega)
      exact ⟨by omega, hle, by linarith⟩
  · rintro ⟨hpos, hlo, hhi⟩
    rw [truncate]
    split_ifs with hx
    · exact ⟨Int.floor_nonneg.mpr hx, Int.floor_lt.mpr hhi⟩
    · have hceil : -1 < ⌈x⌉ := Int.lt_ceil.mpr (by simpa using hlo)
      have hle : ⌈x⌉ ≤ 0 := Int.ceil_le.mpr (by simpa using (not_le.mp hx).le)
      omega

theorem lt_div_sub_iff (hr : 0 < r) (a : ℝ) : a < (w - o) / r ↔ o + a * r < w := by
  rw [lt_div_iff₀ hr, lt_sub_iff_add_lt']

theorem div_sub_lt_iff (hr : 0 < r) (a : ℝ) : (w - o) / r < a ↔ w < o + a * r := by
  rw [div_lt_iff₀ hr, sub_lt_iff_lt_add']

/-- The coordinate of a point. Before the origin, the first cell goes on for the length of a
cell, which is the whole of the defect. -/
theorem coordinate_eq_iff (hr : 0 < r) (hn : 0 ≤ n) :
    truncate ((w - o) / r) = n ↔
      (o + n * r ≤ w ∧ w < o + (n + 1) * r) ∨ (n = 0 ∧ o - r < w ∧ w < o) := by
  rw [truncate_eq_iff hn, ← not_lt, div_sub_lt_iff hr, not_lt, div_sub_lt_iff hr,
    lt_div_sub_iff hr, div_sub_lt_iff hr]
  simp only [neg_mul, one_mul, zero_mul, add_zero, sub_eq_add_neg]

/-- The points with a coordinate of the grid, along one axis: the interval of the grid and what
the first cell has more. -/
theorem coordinate_mem_iff (hr : 0 < r) :
    (0 ≤ truncate ((w - o) / r) ∧ truncate ((w - o) / r) < n) ↔
      0 < n ∧ o - r < w ∧ w < o + n * r := by
  rw [truncate_mem_iff, lt_div_sub_iff hr, div_sub_lt_iff hr]
  simp only [neg_mul, one_mul, sub_eq_add_neg]

end Axis

/-! ## Points outside

Off the strip the cells of the grid are the squares of the rectangle, so what is outside the
rectangle is outside the grid, where no function of the grid writes. -/

variable {g : OccupancyGrid ℝ} {wx wy : ℝ} {c : Cell}

theorem inside_worldToGrid_iff (hres : 0 < g.resolution) :
    g.Inside (worldToGrid g wx wy) ↔ (0 < g.width ∧ g.origin.x - g.resolution < wx ∧
      wx < g.origin.x + g.width * g.resolution) ∧ 0 < g.height ∧
      g.origin.y - g.resolution < wy ∧ wy < g.origin.y + g.height * g.resolution := by
  rw [inside_iff, ← coordinate_mem_iff hres, ← coordinate_mem_iff hres]
  rfl

/-- Off the strip, the cells of the grid take in the points of the rectangle only. -/
theorem inRect_of_inside (hres : 0 < g.resolution) (hstrip : ¬InStrip g wx wy)
    (hin : g.Inside (worldToGrid g wx wy)) : InRect g wx wy := by
  obtain ⟨⟨hw, hx, hx'⟩, hh, hy, hy'⟩ := (inside_worldToGrid_iff hres).mp hin
  have hbefore : ¬(wx < g.origin.x ∨ wy < g.origin.y) := fun h =>
    hstrip ⟨hw, hh, ⟨hx, hx'⟩, ⟨hy, hy'⟩, h⟩
  rw [not_or, not_lt, not_lt] at hbefore
  exact ⟨⟨hbefore.1, hx'⟩, hbefore.2, hy'⟩

theorem worldToGrid_eq_iff (hres : 0 < g.resolution) (hstrip : ¬InStrip g wx wy)
    (hc : g.Inside c) : worldToGrid g wx wy = c ↔ InSquare g c wx wy := by
  obtain ⟨⟨hx, -⟩, hy, -⟩ := inside_iff.mp hc
  constructor
  · rintro rfl
    obtain ⟨⟨hwx, -⟩, hwy, -⟩ := inRect_of_inside hres hstrip hc
    have hsquare := (coordinate_eq_iff hres hx).mp rfl
    have hsquare' := (coordinate_eq_iff hres hy).mp rfl
    exact ⟨hsquare.resolve_right fun h => absurd hwx (not_le.mpr h.2.2),
      hsquare'.resolve_right fun h => absurd hwy (not_le.mpr h.2.2)⟩
  · rintro ⟨hsx, hsy⟩
    have hcx := (coordinate_eq_iff hres hx).mpr (.inl hsx)
    have hcy := (coordinate_eq_iff hres hy).mpr (.inl hsy)
    obtain ⟨x, y⟩ := c
    exact congrArg₂ Cell.mk hcx hcy

/-- A centre outside the grid makes no obstacle. Cells near the border may be raised, but not to
lethal: that cost is for the cell of the centre alone. -/
theorem inflate_outside {updater : GridUpdater ℝ} (hk : 0 ≤ updater.costScalingFactor)
    (hg : g.WellFormed) (hout : ¬g.Inside (worldToGrid g wx wy)) (hc : g.Inside c)
    (hlethal : (updater.inflate g wx wy).costAt c = lethal) : g.costAt c = lethal := by
  have hcentre : g.setCost (worldToGrid g wx wy) lethal = g := if_neg hout
  have hraised := GridUpdater.ring_raised updater hg (worldToGrid g wx wy)
  have hinflate : updater.inflate g wx wy = _ := congrArg (List.foldl _ · _) hcentre
  rw [← hinflate] at hraised
  have hle := hraised.le c
  rw [hlethal] at hle
  refine UInt8.le_antisymm hle ?_
  by_contra hnot
  -- the ring alone does not get that high
  have hbound : (updater.inflate g wx wy).costAt c ≤ inscribed := by
    refine (hraised.le_iff c hc _).mpr ⟨?_, ?_⟩
    · have hlt := UInt8.lt_iff_toNat_lt.mp (UInt8.not_le.mp hnot)
      rw [UInt8.le_iff_toNat_le]
      exact Nat.le_of_lt_succ hlt
    · rintro x ⟨-, -, rfl⟩
      exact GridUpdater.ringCost_le hk _
  rw [hlethal] at hbound
  exact absurd hbound (by decide)

/-- A line that ends outside the grid makes no obstacle: only its last cell is marked, and that
one is not a cell of the grid. -/
theorem bresenham_outside {rx ry : ℝ} {h : OccupancyGrid ℝ} (hg : g.Sized)
    (hout : ¬g.Inside (worldToGrid g wx wy)) (hline : bresenham g rx ry wx wy = some h)
    (hc : g.Inside c) (hlethal : h.costAt c = lethal) : g.costAt c = lethal := by
  rw [bresenham, walkLine_marks, Option.some.injEq] at hline
  rw [← hline, costAt_updates _ _ hg hc] at hlethal
  refine Mark.eq_lethal_of_clear (fun m hm => ?_) hlethal
  obtain ⟨hmem, hcell⟩ := List.mem_filter.mp hm
  cases m with
  | clear d => rfl
  | obstacle d =>
    obtain rfl : d = c := of_decide_eq_true hcell
    obtain rfl : d = worldToGrid g wx wy := by simpa [lineMarks] using hmem
    exact absurd hc hout

/-- **Points outside the grid are kept out** unless they are in the strip. In the strip, the
point has a cell of the grid whose square it does not lie in, and an object there is stamped into
that cell. -/
theorem keepsOut_iff (hg : g.WellFormed) (wx wy : ℝ) : KeepsOut g wx wy ↔ ¬InStrip g wx wy := by
  constructor
  · intro h hstrip
    have hout : ¬InRect g wx wy := fun ⟨⟨hx, _⟩, hy, _⟩ =>
      hstrip.before.elim (not_lt.mpr hx) (not_lt.mpr hy)
    exact h.endpoint hout ((inside_worldToGrid_iff hg.resolution_pos).mpr
      ⟨⟨hstrip.width_pos, hstrip.x⟩, hstrip.height_pos, hstrip.y⟩)
  · intro hstrip
    have hout : ¬InRect g wx wy → ¬g.Inside (worldToGrid g wx wy) :=
      mt (inRect_of_inside hg.resolution_pos hstrip)
    exact ⟨fun c hc => worldToGrid_eq_iff hg.resolution_pos hstrip hc,
      fun hrect _ hk _ hc => inflate_outside hk hg (hout hrect) hc,
      fun hrect _ _ _ hline _ hc => bresenham_outside hg.sized (hout hrect) hline hc, hout⟩

/-- The grid of the decision node. -/
noncomputable def demoGrid : OccupancyGrid ℝ where
  width := 400
  height := 400
  resolution := 0.05
  cells := .replicate 160000 free
  origin := ⟨0, -10⟩

theorem demoGrid_wellFormed : demoGrid.WellFormed := by
  refine ⟨?_, by norm_num [demoGrid]⟩
  change ((List.replicate 160000 free).length : Int) = 400 * 400
  rw [List.length_replicate]
  norm_num

/-- Two centimetres behind the grid, a start or a goal is taken for one in the first column. -/
theorem not_keepsOut_demoGrid :
    ¬∀ (g : OccupancyGrid ℝ) (wx wy : ℝ), g.WellFormed → KeepsOut g wx wy := by
  intro h
  have hrect : ¬InRect demoGrid (-0.02) 0 := fun hin => by
    have hx := hin.1.1
    norm_num [demoGrid] at hx
  refine (h demoGrid (-0.02) 0 demoGrid_wellFormed).endpoint hrect ?_
  rw [inside_worldToGrid_iff demoGrid_wellFormed.resolution_pos]
  norm_num [demoGrid]

/-- The point in the middle of the first cell. -/
theorem keepsOut_demoGrid : KeepsOut demoGrid 0.025 0.025 := by
  refine (keepsOut_iff demoGrid_wellFormed 0.025 0.025).mpr fun hstrip => ?_
  have hbefore := hstrip.before
  norm_num [demoGrid] at hbefore

end AmrFramework.Planning
