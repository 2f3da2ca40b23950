import AmrFramework.CMath
import Mathlib.Data.Int.Range

/-!
# The cost field

`OccupancyGrid` is a `uint8` cost for every cell: `free`, the gradient of the
inflation, `inscribed` and `lethal`. Cells outside the grid can be asked for and
written to; they are not traversable, and the write is dropped.

All writers change one cell at a time by a function of its cost (`update`), so
what a run of writes does to a cell is the run of the functions that were aimed
at it (`costAt_updates`).
-/

namespace AmrFramework.Planning

universe u v

/-- Grid coordinates, in the grid or not. -/
structure Cell : Type where
  x : Int
  y : Int
  deriving DecidableEq, Repr

/-- A position in the world. -/
structure Pose (K : Type u) : Type u where
  x : K
  y : K
  deriving DecidableEq, Repr

/-- A point of a path. -/
structure Waypoint (K : Type u) : Type u where
  x : K
  y : K
  deriving DecidableEq, Repr

/-- The occupancy grid. Its two sides are `int`s, whose upper bound the last two fields keep; the
cells are stored by rows. -/
structure OccupancyGrid (K : Type u) [Field K] : Type u where
  width : Int := 0
  height : Int := 0
  resolution : K := 0.05
  cells : List UInt8 := []
  origin : Pose K := ⟨0, 0⟩
  width_lt : width < 2 ^ 31 := by decide
  height_lt : height < 2 ^ 31 := by decide

theorem one_lt_int32 : (1 : Int) < 2 ^ 31 := by decide

theorem two_lt_int32 : (2 : Int) < 2 ^ 31 := by decide

namespace OccupancyGrid

variable {K : Type u} [Field K]

def free : UInt8 := 0

/-- Within the inscribed circle of the robot. -/
def inscribed : UInt8 := 253

/-- The obstacle itself. -/
def lethal : UInt8 := 254

/-- Not refused by the bounds check. It is written as the check is, and `inside_iff` turns it
around. -/
def Inside (g : OccupancyGrid K) (c : Cell) : Prop :=
  ¬(c.x < 0 ∨ c.x ≥ g.width ∨ c.y < 0 ∨ c.y ≥ g.height)

instance (g : OccupancyGrid K) (c : Cell) : Decidable (g.Inside c) :=
  inferInstanceAs (Decidable (¬_))

/-- The index of a cell in the vector of cells, which holds row after row. -/
def index (g : OccupancyGrid K) (c : Cell) : Nat := c.y.toNat * g.width.toNat + c.x.toNat

/-- The cell that the vector holds. A vector that is too short is read as lethal, which no
well-formed grid makes use of. -/
def stored (g : OccupancyGrid K) (c : Cell) : UInt8 := g.cells.getD (g.index c) lethal

def isTraversable (g : OccupancyGrid K) (c : Cell) : Bool :=
  if g.Inside c then decide (g.stored c < inscribed) else false

def costAt (g : OccupancyGrid K) (c : Cell) : UInt8 :=
  if g.Inside c then g.stored c else lethal

/-- A write to one cell. All setters of the class are such writes, with different functions of
the cost that was there. -/
def update (g : OccupancyGrid K) (c : Cell) (f : UInt8 → UInt8) : OccupancyGrid K :=
  if g.Inside c then { g with cells := g.cells.modify (g.index c) f } else g

def setCost (g : OccupancyGrid K) (c : Cell) (cost : UInt8) : OccupancyGrid K :=
  g.update c fun _ => cost

def setCostMax (g : OccupancyGrid K) (c : Cell) (cost : UInt8) : OccupancyGrid K :=
  g.update c fun cell => max cell cost

/-- A lethal cell stays. -/
def setFreeIfNotLethal (g : OccupancyGrid K) (c : Cell) : OccupancyGrid K :=
  g.update c fun cell => if cell < lethal then free else cell

/-- As many cells as the two sides say. -/
def Sized (g : OccupancyGrid K) : Prop := (g.cells.length : Int) = g.width * g.height

/-- A well-formed grid: as many cells as its sides say, and a positive resolution. -/
structure WellFormed [LinearOrder K] (g : OccupancyGrid K) : Prop where
  sized : g.Sized
  resolution_pos : 0 < g.resolution

end OccupancyGrid

section Coordinates

variable {K : Type u} [Field K]

/-- The cell of a point of the world. The quotient is truncated towards zero, not rounded down,
so the cells with index 0 have points on both sides of the origin. -/
def worldToGrid [LinearOrder K] [FloorRing K] (g : OccupancyGrid K) (wx wy : K) : Cell where
  x := truncate ((wx - g.origin.x) / g.resolution)
  y := truncate ((wy - g.origin.y) / g.resolution)

/-- The middle of a cell. Going back to the grid from there gives the cell again. -/
def gridToWorld (g : OccupancyGrid K) (c : Cell) : Waypoint K where
  x := g.origin.x + (c.x + 0.5) * g.resolution
  y := g.origin.y + (c.y + 0.5) * g.resolution

/-- The offsets of a square window, in the order of its two loops: `dy` outside, `dx` inside. -/
def window (r : Int) : List (Int × Int) :=
  (Int.range (-r) (r + 1)).flatMap fun dy => (Int.range (-r) (r + 1)).map fun dx => (dx, dy)

/-- A cell moved by an offset. -/
def Cell.move (c : Cell) (d : Int × Int) : Cell := ⟨c.x + d.1, c.y + d.2⟩

/-- The square of the length of an offset. -/
def squared (d : Int × Int) : Int := d.1 * d.1 + d.2 * d.2

/-- The offset of a cell from another. -/
def Cell.offset (c d : Cell) : Int × Int := (d.x - c.x, d.y - c.y)

/-- The square of the distance of two cells. -/
def distSq (c d : Cell) : Int := squared (c.offset d)

theorem Cell.move_eq_iff {c d : Cell} {m : Int × Int} : c.move m = d ↔ m = c.offset d := by
  obtain ⟨x, y⟩ := c
  obtain ⟨x', y'⟩ := d
  obtain ⟨a, b⟩ := m
  simp only [Cell.move, Cell.offset, Cell.mk.injEq, Prod.mk.injEq]
  omega

@[simp] theorem Cell.move_offset (c d : Cell) : c.move (c.offset d) = d :=
  Cell.move_eq_iff.mpr rfl

@[simp] theorem distSq_move (c : Cell) (d : Int × Int) : distSq c (c.move d) = squared d :=
  congrArg squared (Cell.move_eq_iff.mp rfl).symm

theorem Cell.offset_eq_zero {c d : Cell} : c.offset d = (0, 0) ↔ c = d := by
  rw [eq_comm, ← Cell.move_eq_iff, Cell.move, add_zero, add_zero]

/-- A cell at no distance is the cell itself. -/
theorem eq_of_distSq_nonpos {c d : Cell} (h : distSq c d ≤ 0) : c = d := by
  have hx := mul_self_nonneg (c.offset d).1
  have hy := mul_self_nonneg (c.offset d).2
  rw [distSq, squared] at h
  refine Cell.offset_eq_zero.mp (Prod.ext ?_ ?_)
  · exact mul_self_eq_zero.mp (by omega)
  · exact mul_self_eq_zero.mp (by omega)

@[simp] theorem mem_window {r : Int} {d : Int × Int} :
    d ∈ window r ↔ (-r ≤ d.1 ∧ d.1 ≤ r) ∧ -r ≤ d.2 ∧ d.2 ≤ r := by
  obtain ⟨dx, dy⟩ := d
  simp only [window, List.mem_flatMap, List.mem_map, Int.mem_range_iff, Prod.mk.injEq]
  constructor
  · rintro ⟨y, hy, x, hx, rfl, rfl⟩
    omega
  · rintro ⟨hx, hy⟩
    exact ⟨dy, by omega, dx, by omega, rfl, rfl⟩

end Coordinates

/-! ## Writes

A write goes to one cell, and the vector is indexed without gaps or overlaps, so cells can be
followed one by one through any number of writes. -/

namespace OccupancyGrid

variable {K : Type u} [Field K] {g h : OccupancyGrid K} {c d : Cell} {f : UInt8 → UInt8}

theorem inside_iff : g.Inside c ↔ (0 ≤ c.x ∧ c.x < g.width) ∧ 0 ≤ c.y ∧ c.y < g.height := by
  simp only [Inside]
  omega

theorem inside_of_isTraversable (h : g.isTraversable c = true) : g.Inside c := by
  by_contra hout
  rw [isTraversable, if_neg hout] at h
  cases h

/-- Nothing but the costs of the cells tells the two grids apart. Entries of the list that are no
cell's stay as they are. -/
structure SameFrame (g h : OccupancyGrid K) : Prop where
  width : h.width = g.width
  height : h.height = g.height
  resolution : h.resolution = g.resolution
  origin : h.origin = g.origin
  length : h.cells.length = g.cells.length
  rest : ∀ i, (∀ c, g.Inside c → g.index c ≠ i) → h.cells[i]? = g.cells[i]?

theorem SameFrame.refl (g : OccupancyGrid K) : SameFrame g g :=
  ⟨rfl, rfl, rfl, rfl, rfl, fun _ _ => rfl⟩

theorem SameFrame.inside_iff (hs : SameFrame g h) : h.Inside c ↔ g.Inside c := by
  simp only [Inside, hs.width, hs.height]

theorem SameFrame.index (hs : SameFrame g h) (c : Cell) : h.index c = g.index c := by
  simp only [OccupancyGrid.index, hs.width]

theorem SameFrame.symm (hs : SameFrame g h) : SameFrame h g where
  width := hs.width.symm
  height := hs.height.symm
  resolution := hs.resolution.symm
  origin := hs.origin.symm
  length := hs.length.symm
  rest i hi := by
    refine (hs.rest i fun c hc => ?_).symm
    rw [← hs.index]
    exact hi c (hs.inside_iff.mpr hc)

theorem SameFrame.trans {g h k : OccupancyGrid K} (hgh : SameFrame g h) (hhk : SameFrame h k) :
    SameFrame g k where
  width := hhk.width.trans hgh.width
  height := hhk.height.trans hgh.height
  resolution := hhk.resolution.trans hgh.resolution
  origin := hhk.origin.trans hgh.origin
  length := hhk.length.trans hgh.length
  rest i hi := by
    refine (hhk.rest i fun c hc => ?_).trans (hgh.rest i hi)
    rw [hgh.index]
    exact hi c (hgh.inside_iff.mp hc)

theorem SameFrame.sized (hs : SameFrame g h) (hg : g.Sized) : h.Sized := by
  rw [Sized, hs.length, hs.width, hs.height]
  exact hg

theorem SameFrame.wellFormed [LinearOrder K] (hs : SameFrame g h) (hg : g.WellFormed) :
    h.WellFormed :=
  ⟨hs.sized hg.sized, hs.resolution ▸ hg.resolution_pos⟩

theorem SameFrame.worldToGrid [LinearOrder K] [FloorRing K] (hs : SameFrame g h) (wx wy : K) :
    worldToGrid h wx wy = worldToGrid g wx wy := by
  simp only [Planning.worldToGrid, hs.origin, hs.resolution]

theorem sameFrame_update (g : OccupancyGrid K) (c : Cell) (f : UInt8 → UInt8) :
    SameFrame g (g.update c f) := by
  rw [update]
  split_ifs
  · next hc =>
    refine ⟨rfl, rfl, rfl, rfl, List.length_modify _ _ _, fun i hi => ?_⟩
    simp only [List.getElem?_modify, if_neg (hi c hc), id_map']
  · exact .refl g

/-- The coordinates of a cell of the grid, as natural numbers. -/
theorem Inside.toNat (hc : g.Inside c) :
    c.x.toNat < g.width.toNat ∧ c.y.toNat < g.height.toNat ∧
      c = ⟨c.x.toNat, c.y.toNat⟩ := by
  obtain ⟨⟨hx0, hx⟩, hy0, hy⟩ := inside_iff.mp hc
  refine ⟨by omega, by omega, ?_⟩
  rw [Int.toNat_of_nonneg hx0, Int.toNat_of_nonneg hy0]

/-- The cells of the grid are in the vector. -/
theorem index_lt (hg : g.Sized) (hc : g.Inside c) : g.index c < g.cells.length := by
  obtain ⟨hx, hy, -⟩ := hc.toNat
  have hsize : g.cells.length = g.height.toNat * g.width.toNat := by
    zify
    rw [hg, Int.toNat_of_nonneg (by omega), Int.toNat_of_nonneg (by omega), mul_comm]
  calc g.index c < c.y.toNat * g.width.toNat + g.width.toNat := Nat.add_lt_add_left hx _
    _ = (c.y.toNat + 1) * g.width.toNat := (Nat.succ_mul _ _).symm
    _ ≤ g.height.toNat * g.width.toNat := Nat.mul_le_mul_right _ hy
    _ = g.cells.length := hsize.symm

/-- No two of them share a place: row and column are quotient and remainder of the index by the
width. -/
theorem index_inj (hc : g.Inside c) (hd : g.Inside d) (h : g.index c = g.index d) : c = d := by
  obtain ⟨hx, -, hceq⟩ := hc.toNat
  obtain ⟨hx', -, hdeq⟩ := hd.toNat
  have hcol : c.x.toNat = d.x.toNat := by
    have hmod := congrArg (· % g.width.toNat) h
    simpa [index, Nat.add_mod, Nat.mod_eq_of_lt hx, Nat.mod_eq_of_lt hx'] using hmod
  have hrow : c.y.toNat = d.y.toNat := by
    have hmul : c.y.toNat * g.width.toNat = d.y.toNat * g.width.toNat := by
      simp only [index] at h
      omega
    exact Nat.eq_of_mul_eq_mul_right (Nat.zero_lt_of_lt hx) hmul
  rw [hceq, hdeq, hcol, hrow]

/-- **A write** changes the cell it is aimed at, and no other. The index of a cell is computed in
the way of the source, and is injective inside the grid. -/
theorem costAt_update (hg : g.Sized) (hd : g.Inside d) :
    (g.update c f).costAt d = if c = d then f (g.costAt d) else g.costAt d := by
  have hs := sameFrame_update g c f
  rw [costAt, if_pos (hs.inside_iff.mpr hd), costAt, if_pos hd, stored, stored, hs.index]
  rw [update]
  split_ifs with hc heq heq
  · subst heq
    simp [List.getD_eq_getElem?_getD, List.getElem?_eq_getElem (index_lt hg hc)]
  · have hne : g.index c ≠ g.index d := fun hidx => heq (index_inj hc hd hidx)
    simp only [List.getD_eq_getElem?_getD, List.getElem?_modify, if_neg hne, id_map']
  · exact absurd (heq ▸ hd) hc
  · rfl

theorem costAt_of_not_inside (hd : ¬g.Inside d) : g.costAt d = lethal := if_neg hd

/-- Outside the grid there is nothing to change. -/
theorem SameFrame.costAt_outside (hs : SameFrame g h) (hd : ¬g.Inside d) :
    h.costAt d = g.costAt d := by
  rw [costAt_of_not_inside hd, costAt_of_not_inside (mt hs.inside_iff.mp hd)]

/-- Grids with one frame that agree on every cell are one grid. This is what an argument cell by
cell ends with. -/
theorem SameFrame.ext (hs : SameFrame g h) (hcost : ∀ c, g.Inside c → h.costAt c = g.costAt c) :
    h = g := by
  have hcells : h.cells = g.cells := by
    refine List.ext_getElem hs.length fun i hi hi' => ?_
    by_cases hplace : ∃ c, g.Inside c ∧ g.index c = i
    · obtain ⟨c, hc, rfl⟩ := hplace
      have heq := hcost c hc
      rw [costAt, if_pos (hs.inside_iff.mpr hc), costAt, if_pos hc, stored, stored, hs.index] at heq
      simpa [List.getD_eq_getElem?_getD, hi, hi'] using heq
    · have hrest := hs.rest i fun c hc hidx => hplace ⟨c, hc, hidx⟩
      simpa [hi, hi'] using hrest
  cases g
  cases h
  obtain ⟨rfl, rfl, rfl, rfl, -, -⟩ := hs
  obtain rfl : _ = _ := hcells
  rfl

variable {α : Type v} (aim : α → Cell) (eff : α → UInt8 → UInt8)

/-- A run of writes. -/
def updates (g : OccupancyGrid K) (l : List α) : OccupancyGrid K :=
  l.foldl (fun g a => g.update (aim a) (eff a)) g

theorem sameFrame_updates (g : OccupancyGrid K) (l : List α) :
    SameFrame g (g.updates aim eff l) := by
  induction l generalizing g with
  | nil => exact .refl g
  | cons a l ih => exact (sameFrame_update g (aim a) (eff a)).trans (ih _)

/-- **A run of writes** does to a cell what the writes aimed at it do, in turn. So properties of
whole passes over the grid are properties of one cell. -/
theorem costAt_updates (hg : g.Sized) (hd : g.Inside d) (l : List α) :
    (g.updates aim eff l).costAt d =
      (l.filter (aim · = d)).foldl (fun cost a => eff a cost) (g.costAt d) := by
  induction l generalizing g with
  | nil => rfl
  | cons a l ih =>
    have hs := sameFrame_update g (aim a) (eff a)
    have hrest := ih (hs.sized hg) (hs.inside_iff.mpr hd)
    rw [costAt_update hg hd] at hrest
    rw [List.filter_cons]
    by_cases ha : aim a = d
    · rw [if_pos ha] at hrest
      rw [if_pos (decide_eq_true ha)]
      exact hrest
    · rw [if_neg ha] at hrest
      rw [if_neg (by simpa using ha)]
      exact hrest

end OccupancyGrid

end AmrFramework.Planning
