import AmrFramework.ScanToGrid
import Mathlib.Analysis.SpecialFunctions.Exp

/-!
# Inflation

`GridUpdater` marks the centre of every perceived object as an obstacle and
raises the cells around it, by less the further they are away. Raising is a
pointwise maximum: what an object does to a cell is its `stamp` there, and the
stamps of all objects are joined (`markObstacles_spec`).
-/

namespace AmrFramework.Planning

universe u v

open OccupancyGrid

/-- `std::exp`. -/
class CExp (K : Type u) where
  exp : K → K

noncomputable instance : CExp ℝ where
  exp := Real.exp

variable {K : Type u} [Field K]

/-- The centre of a perceived object. -/
structure PerceivedObject (K : Type u) : Type u where
  x : K
  y : K

/-- `GridUpdater::Params`. -/
structure GridUpdater (K : Type u) [Field K] : Type u where
  inscribedRadius : K := 0.35
  inflationRadius : K := 0.55
  /-- the steepness of the decay -/
  costScalingFactor : K := 3

namespace GridUpdater

section Source

variable [LinearOrder K] [FloorRing K] [CMath K] [CExp K] (updater : GridUpdater K)

/-- `static_cast<uint8_t>` -/
def toByte (x : K) : UInt8 := UInt8.ofNat (truncate x).toNat

/-- The cost of a cell at `dM` metres from the centre. -/
def ringCost (dM : K) : UInt8 :=
  if dM ≤ updater.inscribedRadius then inscribed
  else toByte (253 * CExp.exp (-updater.costScalingFactor * (dM - updater.inscribedRadius)))

/-- The metres of an offset of cells. -/
def metres (grid : OccupancyGrid K) (d : Int × Int) : K :=
  let dCells := CMath.sqrt (squared d : K)
  dCells * grid.resolution

/-- One offset of the window around the centre. -/
def raise (c : Cell) (grid : OccupancyGrid K) (d : Int × Int) : OccupancyGrid K :=
  if d = (0, 0) then grid
  else if metres grid d > updater.inflationRadius then grid
  else grid.setCostMax (c.move d) (updater.ringCost (metres grid d))

/-- The centre is an obstacle, and the cells around it are raised. -/
def inflate (grid : OccupancyGrid K) (wx wy : K) : OccupancyGrid K :=
  let c := worldToGrid grid wx wy
  let r := ⌈updater.inflationRadius / grid.resolution⌉
  (window r).foldl (updater.raise c) (grid.setCost c lethal)

/-- All objects are inflated but the one that is the goal. -/
def markObstacles (grid : OccupancyGrid K) (obstacles : List (PerceivedObject K))
    (skipIdx : Nat) : OccupancyGrid K :=
  obstacles.zipIdx.foldl
    (fun grid o => if o.2 = skipIdx then grid else updater.inflate grid o.1.x o.1.y) grid

end Source

end GridUpdater

/-! ## Raising

Every write is a maximum with some cost. A grid that was raised is described by the costs that
were written to each cell, in any order and with repetitions, so that runs of writes can be
composed without looking at their order. -/

/-- A grid raised to the costs that `W` writes, cell by cell. It is stated by its upper bounds: a
cost is the maximum of what was there and what is written, in any order of writing. -/
structure Raised (g h : OccupancyGrid K) (W : Cell → UInt8 → Prop) : Prop where
  frame : SameFrame g h
  le_iff : ∀ c, g.Inside c → ∀ b, h.costAt c ≤ b ↔ g.costAt c ≤ b ∧ ∀ x, W c x → x ≤ b

section Raised

variable {g h k : OccupancyGrid K} {W W' : Cell → UInt8 → Prop} {c : Cell}

theorem max_le_iff_byte {a b x : UInt8} : max a b ≤ x ↔ a ≤ x ∧ b ≤ x := by
  simp only [UInt8.le_iff_toNat_le, UInt8.toNat_max, max_le_iff]

theorem eq_of_forall_le_iff {a b : UInt8} (h : ∀ x, a ≤ x ↔ b ≤ x) : a = b :=
  UInt8.le_antisymm ((h b).mpr (UInt8.le_refl b)) ((h a).mp (UInt8.le_refl a))

theorem foldl_max_le_iff {l : List UInt8} {a x : UInt8} :
    l.foldl max a ≤ x ↔ a ≤ x ∧ ∀ b ∈ l, b ≤ x := by
  induction l generalizing a with
  | nil => simp
  | cons b l ih => rw [List.foldl_cons, ih, max_le_iff_byte, List.forall_mem_cons, and_assoc]

theorem Raised.refl (g : OccupancyGrid K) : Raised g g fun _ _ => False :=
  ⟨.refl g, fun c _ b => by simp⟩

theorem Raised.trans (hgh : Raised g h W) (hhk : Raised h k W') :
    Raised g k fun c x => W c x ∨ W' c x := by
  refine ⟨hgh.frame.trans hhk.frame, fun c hc b => ?_⟩
  rw [hhk.le_iff c (hgh.frame.inside_iff.mpr hc), hgh.le_iff c hc, and_assoc]
  refine and_congr_right fun _ => ⟨?_, ?_⟩
  · rintro ⟨hleft, hright⟩ x (hx | hx)
    · exact hleft x hx
    · exact hright x hx
  · intro hboth
    exact ⟨fun x hx => hboth x (.inl hx), fun x hx => hboth x (.inr hx)⟩

/-- What matters of the writes is what they are bounded by. -/
theorem Raised.congr (hgh : Raised g h W)
    (hW : ∀ c b, (∀ x, W c x → x ≤ b) ↔ ∀ x, W' c x → x ≤ b) : Raised g h W' :=
  ⟨hgh.frame, fun c hc b => by rw [hgh.le_iff c hc, hW]⟩

/-- The writes determine the grid. -/
theorem Raised.unique {h' : OccupancyGrid K} (hgh : Raised g h W) (hgh' : Raised g h' W) :
    h' = h := by
  refine (hgh.frame.symm.trans hgh'.frame).ext fun c hc => eq_of_forall_le_iff fun b => ?_
  have hc := hgh.frame.inside_iff.mp hc
  rw [hgh.le_iff c hc, hgh'.le_iff c hc]

/-- Raised a second time, it stays as it is. -/
theorem Raised.idem {h' : OccupancyGrid K} (hgh : Raised g h W) (hhh' : Raised h h' W) :
    h' = h := by
  refine hgh.unique ((hgh.trans hhh').congr fun c b => ?_)
  simp only [or_self]

theorem Raised.le (hgh : Raised g h W) (c : Cell) : g.costAt c ≤ h.costAt c := by
  by_cases hc : g.Inside c
  · exact ((hgh.le_iff c hc _).mp (UInt8.le_refl _)).1
  · rw [hgh.frame.costAt_outside hc]
    exact UInt8.le_refl _

theorem Raised.le_of_write (hgh : Raised g h W) (hc : g.Inside c) {x : UInt8} (hx : W c x) :
    x ≤ h.costAt c :=
  ((hgh.le_iff c hc _).mp (UInt8.le_refl _)).2 x hx

/-- Writes of zero leave a cell alone. -/
theorem Raised.eq_of_zero (hgh : Raised g h W) (hzero : ∀ x, W c x → x = 0) :
    h.costAt c = g.costAt c := by
  by_cases hc : g.Inside c
  · refine eq_of_forall_le_iff fun b => ?_
    rw [hgh.le_iff c hc, and_iff_left]
    intro x hx
    rw [hzero x hx]
    exact UInt8.zero_le
  · exact hgh.frame.costAt_outside hc

theorem raised_setCostMax (hg : g.Sized) (d : Cell) (cost : UInt8) :
    Raised g (g.setCostMax d cost) fun c x => c = d ∧ x = cost := by
  refine ⟨sameFrame_update g d _, fun c hc b => ?_⟩
  rw [setCostMax, costAt_update hg hc]
  split_ifs with hd
  · rw [max_le_iff_byte]
    simp [hd]
  · simp [Ne.symm hd]

/-- Overwriting a cell with the highest cost raises it. -/
theorem raised_setCost (hg : g.Sized) (hb : ∀ c, g.Inside c → g.costAt c ≤ lethal) (d : Cell) :
    Raised g (g.setCost d lethal) fun c x => c = d ∧ x = lethal := by
  refine ⟨sameFrame_update g d _, fun c hc b => ?_⟩
  rw [setCost, costAt_update hg hc]
  split_ifs with hd
  · simp only [hd, true_and, forall_eq]
    exact ⟨fun hle => ⟨UInt8.le_trans (hb c hc) hle, hle⟩, fun h => h.2⟩
  · simp [Ne.symm hd]

/-- A run of steps that raise. What the steps rely on, `P`, has to be kept by them. -/
theorem raised_foldl {α : Type v} {f : OccupancyGrid K → α → OccupancyGrid K}
    {w : α → Cell → UInt8 → Prop} {P : OccupancyGrid K → Prop} {l : List α}
    (hstep : ∀ h, P h → ∀ a ∈ l, Raised h (f h a) (w a)) (hP : ∀ h, P h → ∀ a ∈ l, P (f h a))
    (hg : P g) : Raised g (l.foldl f g) fun c x => ∃ a ∈ l, w a c x := by
  induction l generalizing g with
  | nil => exact (Raised.refl g).congr fun c b => by simp
  | cons a l ih =>
    have hfirst := hstep g hg a List.mem_cons_self
    have hrest := ih (fun h hh b hb => hstep h hh b (List.mem_cons_of_mem a hb))
      (fun h hh b hb => hP h hh b (List.mem_cons_of_mem a hb)) (hP g hg a List.mem_cons_self)
    refine (hfirst.trans hrest).congr fun c b => ?_
    simp only [List.mem_cons, exists_eq_or_imp]

end Raised

/-! ## Stamps

What one object writes to one cell. The window of the inflation is large enough for every cell
within the radius, so the stamp is a function of the distance alone. -/

namespace GridUpdater

section Stamp

variable [LinearOrder K] [FloorRing K] [CMath K] [CExp K] (updater : GridUpdater K)
  (grid : OccupancyGrid K)

/-- What an object in the cell `o` does to the cell `c`. -/
def stamp (o c : Cell) : UInt8 :=
  if o = c then lethal
  else if metres grid (o.offset c) > updater.inflationRadius then 0
  else updater.ringCost (metres grid (o.offset c))

/-- The cells of the objects that are not skipped. -/
def others (obstacles : List (PerceivedObject K)) (skipIdx : Nat) : List Cell :=
  (obstacles.zipIdx.filter (·.2 ≠ skipIdx)).map fun o => worldToGrid grid o.1.x o.1.y

end Stamp

variable {updater : GridUpdater ℝ} {g h : OccupancyGrid ℝ} {c d : Cell}

/-- The window holds every cell that is not too far. -/
theorem mem_window_of_metres_le (hres : 0 < g.resolution) {m : Int × Int}
    (hm : metres g m ≤ updater.inflationRadius) :
    m ∈ window ⌈updater.inflationRadius / g.resolution⌉ := by
  have hsqrt : √(squared m : ℝ) ≤ ⌈updater.inflationRadius / g.resolution⌉ :=
    ((le_div_iff₀ hres).mpr hm).trans (Int.le_ceil _)
  have hcoord : ∀ x : Int, x * x ≤ squared m →
      |x| ≤ ⌈updater.inflationRadius / g.resolution⌉ := by
    intro x hx
    have hsq : (x : ℝ) ^ 2 ≤ squared m := by
      rw [sq]
      exact_mod_cast hx
    exact_mod_cast (Real.abs_le_sqrt hsq).trans hsqrt
  have hx := hcoord m.1 (Int.le_add_of_nonneg_right (mul_self_nonneg m.2))
  have hy := hcoord m.2 (Int.le_add_of_nonneg_left (mul_self_nonneg m.1))
  exact mem_window.mpr ⟨abs_le.mp hx, abs_le.mp hy⟩

theorem toByte_le {x : ℝ} (hpos : 0 ≤ x) (hle : x ≤ 253) : toByte x ≤ inscribed := by
  have hfloor : truncate x ≤ 253 := by
    rw [truncate, if_pos hpos]
    refine Int.floor_le_iff.mpr (hle.trans_lt ?_)
    norm_num
  have hnat : (truncate x).toNat ≤ 253 := by omega
  rw [UInt8.le_iff_toNat_le, toByte, UInt8.toNat_ofNat_of_lt' (Nat.lt_of_le_of_lt hnat (by decide))]
  exact hnat

/-- The decay never leaves the range of a byte. -/
theorem ringCost_le (hk : 0 ≤ updater.costScalingFactor) (dM : ℝ) :
    updater.ringCost dM ≤ inscribed := by
  rw [ringCost]
  split_ifs with hd
  · exact UInt8.le_refl _
  · have hexp : Real.exp (-updater.costScalingFactor * (dM - updater.inscribedRadius)) ≤ 1 := by
      rw [Real.exp_le_one_iff, neg_mul, neg_nonpos]
      exact mul_nonneg hk (sub_nonneg.mpr (not_le.mp hd).le)
    have hpos := (Real.exp_pos (-updater.costScalingFactor * (dM - updater.inscribedRadius))).le
    refine toByte_le (mul_nonneg (by norm_num) hpos) ?_
    calc (253 : ℝ) * Real.exp (-updater.costScalingFactor * (dM - updater.inscribedRadius))
      _ ≤ 253 * 1 := mul_le_mul_of_nonneg_left hexp (by norm_num)
      _ = 253 := mul_one _

theorem metres_congr (hs : SameFrame g h) (m : Int × Int) : metres h m = metres g m := by
  simp only [metres, hs.resolution]

/-- The ring around a centre. -/
theorem ring_raised (updater : GridUpdater ℝ) (hg : g.WellFormed) (o : Cell) :
    Raised g ((window ⌈updater.inflationRadius / g.resolution⌉).foldl (updater.raise o) g)
      fun c x => o ≠ c ∧ metres g (o.offset c) ≤ updater.inflationRadius ∧
        x = updater.ringCost (metres g (o.offset c)) := by
  have hstep : ∀ h, SameFrame g h → ∀ d ∈ window ⌈updater.inflationRadius / g.resolution⌉,
      Raised h (updater.raise o h d) fun c x => d ≠ (0, 0) ∧
        metres g d ≤ updater.inflationRadius ∧ o.move d = c ∧
        x = updater.ringCost (metres g d) := by
    intro h hs d _
    rw [raise, metres_congr hs]
    split_ifs with hzero hfar
    · exact (Raised.refl h).congr fun c b => by simp [hzero]
    · exact (Raised.refl h).congr fun c b => by simp [not_le.mpr hfar]
    · refine (raised_setCostMax (hs.sized hg.sized) _ _).congr fun c b => ?_
      simp [hzero, not_lt.mp hfar, eq_comm]
  have hrun := raised_foldl hstep (fun h hs d hd => hs.trans (hstep h hs d hd).frame) (.refl g)
  refine hrun.congr fun c b => forall_congr' fun x => imp_congr_left ?_
  constructor
  · rintro ⟨d, -, hzero, hle, hmove, rfl⟩
    obtain rfl := Cell.move_eq_iff.mp hmove
    exact ⟨fun heq => hzero (Cell.offset_eq_zero.mpr heq), hle, rfl⟩
  · rintro ⟨hne, hle, rfl⟩
    exact ⟨o.offset c, mem_window_of_metres_le hg.resolution_pos hle,
      fun hzero => hne (Cell.offset_eq_zero.mp hzero), hle, Cell.move_offset o c, rfl⟩

/-- **An object raises the grid to its stamp.** The loops over the window write maxima, so their
order does not matter, and cells outside get nothing. -/
theorem inflate_raised (hg : g.WellFormed) (hb : ∀ c, g.Inside c → g.costAt c ≤ lethal)
    (wx wy : ℝ) : Raised g (updater.inflate g wx wy)
      fun c x => x = updater.stamp g (worldToGrid g wx wy) c := by
  have hcentre := raised_setCost hg.sized hb (worldToGrid g wx wy)
  have hs := hcentre.frame
  have hring : Raised _ (updater.inflate g wx wy) _ :=
    hs.resolution ▸ ring_raised updater
      (hs.wellFormed hg) (worldToGrid g wx wy)
  refine (hcentre.trans hring).congr fun c b => ?_
  simp only [metres_congr hs, stamp]
  split_ifs with heq hfar
  · simp [heq]
  · simp [Ne.symm heq, not_le.mpr hfar]
  · simp [heq, Ne.symm heq, not_lt.mp hfar]

theorem stamp_le (hk : 0 ≤ updater.costScalingFactor) (o c : Cell) :
    updater.stamp g o c ≤ lethal := by
  rw [stamp]
  split_ifs
  · exact UInt8.le_refl _
  · decide
  · exact UInt8.le_trans (ringCost_le hk _) (by decide)

theorem stamp_congr (hs : SameFrame g h) : updater.stamp h = updater.stamp g := by
  funext o c
  simp only [stamp, metres_congr hs]

theorem others_congr (hs : SameFrame g h) (obstacles : List (PerceivedObject ℝ)) (skipIdx : Nat) :
    others h obstacles skipIdx = others g obstacles skipIdx := by
  simp only [others, hs.worldToGrid]

/-- A cell is at no distance from itself. -/
theorem metres_offset_self (g : OccupancyGrid ℝ) (c : Cell) : metres g (c.offset c) = 0 := by
  simp [metres, Cell.offset, squared]

theorem stamp_eq_zero (hinf : 0 ≤ updater.inflationRadius)
    (hfar : updater.inflationRadius < metres g (c.offset d)) : updater.stamp g c d = 0 := by
  have hne : c ≠ d := by
    rintro rfl
    rw [metres_offset_self] at hfar
    exact absurd hinf (not_le.mpr hfar)
  rw [stamp, if_neg hne, if_pos hfar]

theorem inscribed_le_stamp (hnear : metres g (c.offset d) ≤
    min updater.inscribedRadius updater.inflationRadius) : inscribed ≤ updater.stamp g c d := by
  obtain ⟨hins, hinf⟩ := le_min_iff.mp hnear
  rw [stamp, if_neg (not_lt.mpr hinf), ringCost, if_pos hins]
  split_ifs
  · decide
  · exact UInt8.le_refl _

/-- All objects together: the grid is raised to the stamps of those that are not skipped. -/
theorem markObstacles_raised (hk : 0 ≤ updater.costScalingFactor) (hg : g.WellFormed)
    (hb : ∀ c, g.Inside c → g.costAt c ≤ lethal) (obstacles : List (PerceivedObject ℝ))
    (skipIdx : Nat) : Raised g (updater.markObstacles g obstacles skipIdx)
      fun c x => ∃ o ∈ others g obstacles skipIdx, x = updater.stamp g o c := by
  have hstep : ∀ h, (SameFrame g h ∧ ∀ c, g.Inside c → h.costAt c ≤ lethal) →
      ∀ o ∈ obstacles.zipIdx,
        Raised h (if o.2 = skipIdx then h else updater.inflate h o.1.x o.1.y) fun c x =>
          o.2 ≠ skipIdx ∧ x = updater.stamp g (worldToGrid g o.1.x o.1.y) c := by
    rintro h ⟨hs, hle⟩ o -
    split_ifs with hskip
    · exact (Raised.refl h).congr fun c b => by simp [hskip]
    · have hraised : Raised h (updater.inflate h o.1.x o.1.y) _ :=
        inflate_raised (hs.wellFormed hg)
          (fun c hc => hle c (hs.inside_iff.mp hc)) _ _
      refine hraised.congr fun c b => ?_
      simp [hskip, stamp_congr hs, hs.worldToGrid]
  have hrun := raised_foldl hstep ?_ ⟨.refl g, hb⟩
  · refine hrun.congr fun c b => forall_congr' fun x => imp_congr_left ?_
    simp only [others, List.mem_map, List.mem_filter]
    constructor
    · rintro ⟨o, ho, hskip, rfl⟩
      exact ⟨_, ⟨o, ⟨ho, by simpa using hskip⟩, rfl⟩, rfl⟩
    · rintro ⟨_, ⟨o, ⟨ho, hskip⟩, rfl⟩, rfl⟩
      exact ⟨o, ho, by simpa using hskip, rfl⟩
  · intro h hP o ho
    have hraised := hstep h hP o ho
    refine ⟨hP.1.trans hraised.frame, fun c hc => ?_⟩
    refine (hraised.le_iff c (hP.1.inside_iff.mpr hc) _).mpr ⟨hP.2 c hc, ?_⟩
    rintro x ⟨-, rfl⟩
    exact stamp_le hk _ c

/-- **Inflation is a pointwise maximum** of the grid and one stamp for every object that is not
skipped. So the order of the objects does not matter, nor does a second pass; no cell gets
cheaper, none changes that is too far from all objects, and those close to one are not
traversable. -/
theorem markObstacles_spec (hk : 0 ≤ updater.costScalingFactor)
    (hinf : 0 ≤ updater.inflationRadius) (hg : g.WellFormed) (hb : Bounded g)
    (obstacles : List (PerceivedObject ℝ)) (skipIdx : Nat) :
    let h := updater.markObstacles g obstacles skipIdx
    let os := others g obstacles skipIdx
    (SameFrame g h ∧ ∀ c, g.Inside c →
      h.costAt c = (os.map (updater.stamp g · c)).foldl max (g.costAt c)) ∧
    (∀ obstacles' skipIdx', (others g obstacles' skipIdx').Perm os →
      updater.markObstacles g obstacles' skipIdx' = h) ∧
    updater.markObstacles h obstacles skipIdx = h ∧
    (∀ c, g.costAt c ≤ h.costAt c) ∧
    (∀ c, (∀ o ∈ os, updater.inflationRadius < metres g (o.offset c)) →
      h.costAt c = g.costAt c) ∧
    ∀ c, g.Inside c → (∃ o ∈ os, metres g (o.offset c) ≤
      min updater.inscribedRadius updater.inflationRadius) → inscribed ≤ h.costAt c := by
  intro h os
  have hle : ∀ c, g.Inside c → g.costAt c ≤ lethal := fun c hc => costAt_le hg.sized hb hc
  have hraised := markObstacles_raised hk hg hle obstacles skipIdx
  have hs := hraised.frame
  refine ⟨⟨hs, fun c hc => ?_⟩, fun obstacles' skipIdx' hperm => ?_, ?_, hraised.le,
    fun c hfar => ?_, ?_⟩
  · refine eq_of_forall_le_iff fun b => ?_
    rw [hraised.le_iff c hc, foldl_max_le_iff, List.forall_mem_map]
    refine and_congr_right fun _ => ⟨fun hall o ho => hall _ ⟨o, ho, rfl⟩, ?_⟩
    rintro hall x ⟨o, ho, rfl⟩
    exact hall o ho
  · refine hraised.unique ((markObstacles_raised hk hg hle obstacles' skipIdx').congr fun c b => ?_)
    simp only [hperm.mem_iff, os]
  · have hle' : ∀ c, h.Inside c → h.costAt c ≤ lethal := fun c hc => by
      have hc := hs.inside_iff.mp hc
      refine (hraised.le_iff c hc _).mpr ⟨hle c hc, ?_⟩
      rintro x ⟨o, -, rfl⟩
      exact stamp_le hk o c
    have hagain := markObstacles_raised hk (hs.wellFormed hg)
      hle' obstacles skipIdx
    rw [others_congr hs, stamp_congr hs] at hagain
    exact hraised.idem hagain
  · refine hraised.eq_of_zero ?_
    rintro x ⟨o, ho, rfl⟩
    exact stamp_eq_zero hinf (hfar o ho)
  · rintro c hc ⟨o, ho, hnear⟩
    exact UInt8.le_trans (inscribed_le_stamp hnear) (hraised.le_of_write hc ⟨o, ho, rfl⟩)

end GridUpdater

/-- Two free cells. -/
noncomputable def twoCells : OccupancyGrid ℝ where
  width := 2
  height := 1
  cells := [free, free]
  width_lt := two_lt_int32
  height_lt := one_lt_int32

/-- An object at the origin of the grid, and one that is skipped. -/
theorem markObstacles_spec_twoCells :
    inscribed ≤ (GridUpdater.markObstacles {} twoCells [⟨0, 0⟩, ⟨1, 0⟩] 1).costAt ⟨0, 0⟩ := by
  have hg : twoCells.WellFormed := ⟨rfl, by norm_num [twoCells]⟩
  have hb : Bounded twoCells := bounded_of_all rfl
  have hk : (0 : ℝ) ≤ ({} : GridUpdater ℝ).costScalingFactor := by norm_num
  have hinf : (0 : ℝ) ≤ ({} : GridUpdater ℝ).inflationRadius := by norm_num
  have hnear := (GridUpdater.markObstacles_spec hk hinf hg hb [⟨0, 0⟩, ⟨1, 0⟩] 1).2.2.2.2.2
  refine hnear ⟨0, 0⟩ (by decide) ⟨⟨0, 0⟩, ?_, ?_⟩
  · simp [GridUpdater.others, worldToGrid, truncate, twoCells]
  · rw [GridUpdater.metres_offset_self]
    norm_num

end AmrFramework.Planning
