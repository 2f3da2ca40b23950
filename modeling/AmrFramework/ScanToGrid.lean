import AmrFramework.RayLine

/-!
# Scans in the cost field

`ScanToGrid::raytrace` draws every valid beam of a scan as a line of cells: the
cells on the way are cleared, and the cell of the hit is marked as an obstacle.
Clearing never takes back an obstacle, so the order of the beams does not matter:
a cell is an obstacle afterwards if it was one before or was hit, it is free if it
was only crossed, and nothing else changes (`raytrace_spec`).
-/

namespace AmrFramework.Planning

universe u

open OccupancyGrid

variable {K : Type u} [Field K]

/-- `ScanToGrid::Params`. -/
structure ScanToGrid (K : Type u) [Field K] : Type u where
  /-- beyond it a beam neither clears nor marks -/
  maxRange : K := 6.5

/-- The bearings of a scan and the pose it is taken from. -/
structure RayFrame (K : Type u) : Type u where
  angleMin : K
  angleIncrement : K
  robotX : K
  robotY : K
  robotTheta : K

section Source

variable [LinearOrder K] [FloorRing K] [CMath K]

/-- The line from one point to another is cleared, and its end is an obstacle. -/
def bresenham (grid : OccupancyGrid K) (wx0 wy0 wx1 wy1 : K) : Option (OccupancyGrid K) :=
  let start := worldToGrid grid wx0 wy0
  let stop := worldToGrid grid wx1 wy1
  walkLine (fun c grid => grid.setFreeIfNotLethal c) (fun c grid => grid.setCost c lethal)
    start stop (steps start stop + 1) grid

/-- Where a beam hits, if it is valid. A beam is its range and its index. -/
def ScanToGrid.hit (s : ScanToGrid K) (frame : RayFrame K) : Option K × Nat → Option (K × K)
  | (none, _) => none
  | (some r, i) =>
    if r ≤ 0 ∨ r > s.maxRange then none
    else
      let a := frame.angleMin + i * frame.angleIncrement + frame.robotTheta
      some (frame.robotX + r * CMath.cos a, frame.robotY + r * CMath.sin a)

/-- One beam. -/
def ScanToGrid.ray (s : ScanToGrid K) (frame : RayFrame K) (grid : OccupancyGrid K)
    (beam : Option K × Nat) : Option (OccupancyGrid K) :=
  match s.hit frame beam with
  | none => some grid
  | some (hx, hy) => bresenham grid frame.robotX frame.robotY hx hy

/-- The beams in the order they are given in. -/
def ScanToGrid.rays (s : ScanToGrid K) (frame : RayFrame K) (grid : OccupancyGrid K)
    (beams : List (Option K × Nat)) : Option (OccupancyGrid K) :=
  beams.foldlM (s.ray frame) grid

def ScanToGrid.raytrace (s : ScanToGrid K) (frame : RayFrame K) (grid : OccupancyGrid K)
    (ranges : List (Option K)) : Option (OccupancyGrid K) :=
  s.rays frame grid ranges.zipIdx

end Source

/-! ## What is written

The ray tracer writes in two ways only: it clears, or it marks. A run of such writes can be
judged cell by cell, and of the order nothing matters but that marking is for good. -/

/-- A write of the ray tracer. -/
inductive Mark : Type
  | clear (c : Cell)
  | obstacle (c : Cell)

namespace Mark

def cell : Mark → Cell
  | clear c | obstacle c => c

def effect : Mark → UInt8 → UInt8
  | clear _, cost => if cost < lethal then free else cost
  | obstacle _, _ => lethal

theorem foldl_effect_lethal (ms : List Mark) :
    ms.foldl (fun cost m => m.effect cost) lethal = lethal := by
  induction ms with
  | nil => rfl
  | cons m ms ih =>
    have hm : m.effect lethal = lethal := by cases m <;> rfl
    rw [List.foldl_cons, hm, ih]

/-- An obstacle stays one, whatever is written after it. -/
theorem foldl_effect_obstacle {ms : List Mark} {c : Cell} (h : obstacle c ∈ ms) (v : UInt8) :
    ms.foldl (fun cost m => m.effect cost) v = lethal := by
  induction ms generalizing v with
  | nil => cases h
  | cons m ms ih =>
    rw [List.foldl_cons]
    rcases List.mem_cons.mp h with rfl | h
    · exact foldl_effect_lethal ms
    · exact ih h _

/-- What is not an obstacle is cleared. -/
theorem foldl_effect_clear {ms : List Mark} (hclear : ∀ m ∈ ms, m = clear m.cell) (hne : ms ≠ [])
    {v : UInt8} (hv : v < lethal) : ms.foldl (fun cost m => m.effect cost) v = free := by
  induction ms generalizing v with
  | nil => exact absurd rfl hne
  | cons m ms ih =>
    have hm : m.effect v = free := by
      rw [hclear m List.mem_cons_self]
      exact if_pos hv
    rw [List.foldl_cons, hm]
    rcases eq_or_ne ms [] with rfl | hms
    · rfl
    · exact ih (fun m hm => hclear m (List.mem_cons_of_mem _ hm)) hms (by decide)

/-- Clearing makes no obstacle. -/
theorem eq_lethal_of_clear {ms : List Mark} (hclear : ∀ m ∈ ms, m = clear m.cell) {v : UInt8}
    (h : ms.foldl (fun cost m => m.effect cost) v = lethal) : v = lethal := by
  induction ms generalizing v with
  | nil => exact h
  | cons m ms ih =>
    have hm : m.effect v = lethal := ih (fun m hm => hclear m (List.mem_cons_of_mem _ hm)) h
    rw [hclear m List.mem_cons_self, effect] at hm
    split_ifs at hm
    · cases hm
    · exact hm

end Mark

/-- What is to be seen of a run of clearing and marking writes: a cell that is hit ends up lethal
whatever is crossed before or after, and lethal cells are never cleared. -/
structure Traced (g h : OccupancyGrid K) (Hit Crossed : Cell → Prop) : Prop where
  frame : SameFrame g h
  sticky : ∀ c, g.costAt c = lethal → h.costAt c = lethal
  marked : ∀ c, g.Inside c → Hit c → h.costAt c = lethal
  cleared : ∀ c, g.Inside c → Crossed c → ¬Hit c → g.costAt c ≠ lethal → h.costAt c = free
  kept : ∀ c, ¬Crossed c → ¬Hit c → h.costAt c = g.costAt c

/-- The cells are at most obstacles. -/
def Bounded (g : OccupancyGrid K) : Prop := ∀ cost ∈ g.cells, cost ≤ lethal

theorem bounded_of_all {g : OccupancyGrid K}
    (h : g.cells.all (fun cost => decide (cost ≤ lethal)) = true) : Bounded g :=
  fun cost hcost => of_decide_eq_true (List.all_eq_true.mp h cost hcost)

theorem costAt_le {g : OccupancyGrid K} (hg : g.Sized) (hb : Bounded g) {c : Cell}
    (hc : g.Inside c) : g.costAt c ≤ lethal := by
  rw [costAt, if_pos hc, stored, List.getD_eq_getElem?_getD,
    List.getElem?_eq_getElem (index_lt hg hc)]
  exact hb _ (List.getElem_mem _)

/-- What any run of writes leaves is to be seen from which cells were marked and which were
cleared. -/
theorem traced_updates {g : OccupancyGrid K} (hg : g.Sized) (hb : Bounded g) (ms : List Mark) :
    Traced g (g.updates Mark.cell Mark.effect ms) (.obstacle · ∈ ms) (.clear · ∈ ms) := by
  have hs := sameFrame_updates Mark.cell Mark.effect g ms
  refine ⟨hs, fun c hlethal => ?_, fun c hc hhit => ?_, fun c hc hcross hhit hlethal => ?_,
    fun c hcross hhit => ?_⟩
  · by_cases hc : g.Inside c
    · rw [costAt_updates _ _ hg hc, hlethal, Mark.foldl_effect_lethal]
    · rw [hs.costAt_outside hc, hlethal]
  · rw [costAt_updates _ _ hg hc]
    exact Mark.foldl_effect_obstacle (List.mem_filter.mpr ⟨hhit, by simp [Mark.cell]⟩) _
  · rw [costAt_updates _ _ hg hc]
    refine Mark.foldl_effect_clear (fun m hm => ?_) ?_ ?_
    · obtain ⟨hmem, hcell⟩ := List.mem_filter.mp hm
      cases m with
      | clear d => rfl
      | obstacle d =>
        obtain rfl : d = c := of_decide_eq_true hcell
        exact absurd hmem hhit
    · exact List.ne_nil_of_mem (List.mem_filter.mpr ⟨hcross, by simp [Mark.cell]⟩)
    · exact UInt8.lt_of_le_of_ne (costAt_le hg hb hc) hlethal
  · by_cases hc : g.Inside c
    · rw [costAt_updates _ _ hg hc, List.filter_eq_nil_iff.mpr]
      · rfl
      · intro m hm hcell
        cases m with
        | clear d =>
          obtain rfl : d = c := of_decide_eq_true hcell
          exact hcross hm
        | obstacle d =>
          obtain rfl : d = c := of_decide_eq_true hcell
          exact hhit hm
    · exact hs.costAt_outside hc

/-- What is to be seen of them determines the grid. -/
theorem Traced.unique {g h h' : OccupancyGrid K} {Hit Crossed : Cell → Prop}
    (ht : Traced g h Hit Crossed) (ht' : Traced g h' Hit Crossed) : h' = h := by
  refine (ht.frame.symm.trans ht'.frame).ext fun c hc => ?_
  have hc := ht.frame.inside_iff.mp hc
  by_cases hhit : Hit c
  · rw [ht.marked c hc hhit, ht'.marked c hc hhit]
  · by_cases hlethal : g.costAt c = lethal
    · rw [ht.sticky c hlethal, ht'.sticky c hlethal]
    · by_cases hcross : Crossed c
      · rw [ht.cleared c hc hcross hhit hlethal, ht'.cleared c hc hcross hhit hlethal]
      · rw [ht.kept c hcross hhit, ht'.kept c hcross hhit]

/-- Seen twice, it changes nothing the second time. -/
theorem Traced.idem {g h h' : OccupancyGrid K} {Hit Crossed : Cell → Prop}
    (ht : Traced g h Hit Crossed) (ht' : Traced h h' Hit Crossed) : h' = h := by
  refine ht'.frame.ext fun c hin => ?_
  have hc := ht.frame.inside_iff.mp hin
  by_cases hlethal : h.costAt c = lethal
  · rw [hlethal, ht'.sticky c hlethal]
  · have hhit : ¬Hit c := fun hhit => hlethal (ht.marked c hc hhit)
    by_cases hcross : Crossed c
    · have hbefore : g.costAt c ≠ lethal := fun hg => hlethal (ht.sticky c hg)
      rw [ht.cleared c hc hcross hhit hbefore, ht'.cleared c hin hcross hhit hlethal]
    · exact ht'.kept c hcross hhit

/-- What a line writes. -/
def lineMarks (start stop : Cell) : List Mark :=
  (passed start stop).map .clear ++ [.obstacle stop]

theorem walkLine_marks (g : OccupancyGrid K) (start stop : Cell) :
    walkLine (fun c grid => grid.setFreeIfNotLethal c) (fun c grid => grid.setCost c lethal)
      start stop (steps start stop + 1) g =
      some (g.updates Mark.cell Mark.effect (lineMarks start stop)) := by
  rw [walkLine_eq, if_pos (Nat.lt_succ_self _), lineMarks, updates, List.foldl_append,
    List.foldl_map]
  rfl

/-! ## Whole scans

Every beam is a line of clearing writes with a marking one at its end, or nothing. -/

theorem Traced.bounded {g h : OccupancyGrid K} {Hit Crossed : Cell → Prop} (hg : g.Sized)
    (hb : Bounded g) (ht : Traced g h Hit Crossed) : Bounded h := by
  intro cost hcost
  obtain ⟨i, hi, rfl⟩ := List.mem_iff_getElem.mp hcost
  by_cases hplace : ∃ c, g.Inside c ∧ g.index c = i
  · obtain ⟨c, hc, rfl⟩ := hplace
    have hstored : h.costAt c = h.cells[g.index c] := by
      rw [costAt, if_pos (ht.frame.inside_iff.mpr hc), stored, ht.frame.index,
        List.getD_eq_getElem?_getD, List.getElem?_eq_getElem hi]
      rfl
    rw [← hstored]
    by_cases hlethal : h.costAt c = lethal
    · rw [hlethal]
      decide
    · have hhit : ¬Hit c := fun hhit => hlethal (ht.marked c hc hhit)
      by_cases hcross : Crossed c
      · rw [ht.cleared c hc hcross hhit fun hg => hlethal (ht.sticky c hg)]
        decide
      · rw [ht.kept c hcross hhit]
        exact costAt_le hg hb hc
  · have hrest := ht.frame.rest i fun c hc hidx => hplace ⟨c, hc, hidx⟩
    rw [List.getElem?_eq_getElem hi] at hrest
    exact hb _ (List.mem_of_getElem? hrest.symm)

section Beams

variable [LinearOrder K] [FloorRing K] [CMath K] (s : ScanToGrid K) (frame : RayFrame K)

namespace ScanToGrid

/-- A valid beam hits this cell. -/
def Hits (g : OccupancyGrid K) (beams : List (Option K × Nat)) (c : Cell) : Prop :=
  ∃ b ∈ beams, ∃ p, s.hit frame b = some p ∧ worldToGrid g p.1 p.2 = c

/-- A valid beam crosses this cell on its way to the one it hits. -/
def Crosses (g : OccupancyGrid K) (beams : List (Option K × Nat)) (c : Cell) : Prop :=
  ∃ b ∈ beams, ∃ p, s.hit frame b = some p ∧
    c ∈ passed (worldToGrid g frame.robotX frame.robotY) (worldToGrid g p.1 p.2)

/-- What a beam writes. -/
def marks (g : OccupancyGrid K) (beam : Option K × Nat) : List Mark :=
  match s.hit frame beam with
  | none => []
  | some (hx, hy) => lineMarks (worldToGrid g frame.robotX frame.robotY) (worldToGrid g hx hy)

variable {s frame} {g h : OccupancyGrid K} {beams : List (Option K × Nat)} {c : Cell}

theorem marks_congr (hs : SameFrame g h) : s.marks frame h = s.marks frame g := by
  funext beam
  simp only [marks, hs.worldToGrid]

theorem rays_eq (g : OccupancyGrid K) (beams : List (Option K × Nat)) :
    s.rays frame g beams =
      some (g.updates Mark.cell Mark.effect (beams.flatMap (s.marks frame g))) := by
  induction beams generalizing g with
  | nil => rfl
  | cons b beams ih =>
    have hray : s.ray frame g b = some (g.updates Mark.cell Mark.effect (s.marks frame g b)) := by
      rw [ray, marks]
      split
      · rfl
      · exact walkLine_marks g _ _
    have hs := sameFrame_updates Mark.cell Mark.effect g (s.marks frame g b)
    rw [rays, List.foldlM_cons, hray]
    refine (ih _).trans ?_
    rw [marks_congr hs, List.flatMap_cons, updates, updates, updates, List.foldl_append]

theorem obstacle_mem_marks :
    Mark.obstacle c ∈ beams.flatMap (s.marks frame g) ↔ s.Hits frame g beams c := by
  simp only [List.mem_flatMap, Hits, marks, lineMarks]
  refine exists_congr fun b => and_congr_right fun _ => ?_
  cases s.hit frame b with
  | none => simp
  | some p => simp [eq_comm]

theorem clear_mem_marks :
    Mark.clear c ∈ beams.flatMap (s.marks frame g) ↔ s.Crosses frame g beams c := by
  simp only [List.mem_flatMap, Crosses, marks, lineMarks]
  refine exists_congr fun b => and_congr_right fun _ => ?_
  cases s.hit frame b with
  | none => simp
  | some p => simp

/-- Beams in some order: the grid is what it was, with the hits marked and the crossed cells
cleared. -/
theorem rays_traced (hg : g.Sized) (hb : Bounded g) (beams : List (Option K × Nat)) :
    ∃ h, s.rays frame g beams = some h ∧
      Traced g h (s.Hits frame g beams) (s.Crosses frame g beams) := by
  refine ⟨_, rays_eq g beams, ?_⟩
  have ht := traced_updates hg hb (beams.flatMap (s.marks frame g))
  simpa only [obstacle_mem_marks, clear_mem_marks] using ht

theorem hits_congr (hs : SameFrame g h) : s.Hits frame h beams = s.Hits frame g beams := by
  funext c
  simp only [Hits, hs.worldToGrid]

theorem crosses_congr (hs : SameFrame g h) : s.Crosses frame h beams = s.Crosses frame g beams := by
  funext c
  simp only [Crosses, hs.worldToGrid]

variable (s frame) in
/-- **The order of the beams does not matter**, and neither does a second scan like the first.
What was an obstacle or is hit is one, what is only crossed is free, and the rest is as it was.
All of it follows from what is to be seen of the writes, which does not speak of their order. -/
theorem raytrace_spec (hg : g.Sized) (hb : Bounded g) (ranges : List (Option K)) :
    ∃ h, s.raytrace frame g ranges = some h ∧
      (∀ beams, beams.Perm ranges.zipIdx → s.rays frame g beams = some h) ∧
      s.raytrace frame h ranges = some h ∧
      Traced g h (s.Hits frame g ranges.zipIdx) (s.Crosses frame g ranges.zipIdx) := by
  obtain ⟨h, hray, ht⟩ : ∃ h, s.rays frame g ranges.zipIdx = some h ∧ _ :=
    rays_traced hg hb ranges.zipIdx
  refine ⟨h, hray, fun beams hperm => ?_, ?_, ht⟩
  · obtain ⟨h', hray', ht'⟩ : ∃ h', s.rays frame g beams = some h' ∧ _ := rays_traced hg hb beams
    have hhits : s.Hits frame g beams = s.Hits frame g ranges.zipIdx := by
      funext c
      simp only [Hits, hperm.mem_iff]
    have hcrosses : s.Crosses frame g beams = s.Crosses frame g ranges.zipIdx := by
      funext c
      simp only [Crosses, hperm.mem_iff]
    rw [hhits, hcrosses] at ht'
    rw [hray', ht.unique ht']
  · obtain ⟨h', hray', ht'⟩ : ∃ h', s.rays frame h ranges.zipIdx = some h' ∧ _ :=
      rays_traced (ht.frame.sized hg) (ht.bounded hg hb) ranges.zipIdx
    rw [hits_congr ht.frame, crosses_congr ht.frame] at ht'
    exact hray'.trans (congrArg some (ht.idem ht'))

end ScanToGrid

end Beams

/-- An obstacle behind a free cell, seen by one beam. -/
theorem raytrace_spec_wall :
    ∃ h : OccupancyGrid ℝ,
      ScanToGrid.raytrace {} ⟨0, 0, 0, 0, 0⟩
        { width := 2, height := 1, cells := [free, lethal] } [some 1, none] = some h ∧
      h.costAt ⟨1, 0⟩ = lethal := by
  obtain ⟨h, hray, -, -, ht⟩ := ScanToGrid.raytrace_spec {} ⟨0, 0, 0, 0, 0⟩
    (g := ({ width := 2, height := 1, cells := [free, lethal] } : OccupancyGrid ℝ)) rfl
    (bounded_of_all rfl) [some 1, none]
  exact ⟨h, hray, ht.sticky ⟨1, 0⟩ (by rfl)⟩

end AmrFramework.Planning
