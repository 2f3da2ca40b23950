import AmrFramework.OccupancyGrid
import Mathlib.Tactic.Linarith

/-!
# Lines of cells

`ScanToGrid::bresenham` walks from one cell to another in a loop that ends only
at that very cell. The error term says which of the two coordinates move. What is
done at the cells is a parameter here; `visits` keeps a record of them.

The walk is `|dx|` or `|dy|` steps long, whichever is more, and no cell of it is
more than half a cell beside the line (`visits_exact`).
-/

namespace AmrFramework.Planning

universe u v

/-- What the loop does not change: where the line ends, how long its two sides are, and in which
directions it goes. -/
structure Line : Type where
  stop : Cell
  dx : Int
  dy : Int
  sx : Int
  sy : Int

def line (start stop : Cell) : Line where
  stop := stop
  dx := |stop.x - start.x|
  dy := |stop.y - start.y|
  sx := if start.x < stop.x then 1 else -1
  sy := if start.y < stop.y then 1 else -1

/-- What one pass of the loop makes of the error term and the cell. -/
def Line.next (l : Line) (err : Int) (c : Cell) : Int × Cell :=
  let e2 := 2 * err
  let (err, x) := if e2 > -l.dy then (err - l.dy, c.x + l.sx) else (err, c.x)
  let (err, y) := if e2 < l.dx then (err + l.dx, c.y + l.sy) else (err, c.y)
  (err, ⟨x, y⟩)

section Loop

variable {α : Type u} (pass hit : Cell → α → α)

/-- The loop, at most `fuel` times round. -/
def Line.walk (l : Line) : (fuel : Nat) → (err : Int) → Cell → α → Option α
  | 0, _, _, _ => none
  | fuel + 1, err, c, a =>
    if c = l.stop then some (hit c a)
    else l.walk fuel (l.next err c).1 (l.next err c).2 (pass c a)

/-- The whole line. -/
def walkLine (start stop : Cell) (fuel : Nat) (a : α) : Option α :=
  (line start stop).walk pass hit fuel ((line start stop).dx - (line start stop).dy) start a

end Loop

/-- The steps of the longer side. -/
def steps (start stop : Cell) : Nat := max (stop.x - start.x).natAbs (stop.y - start.y).natAbs

/-- The cells that the loop visits, in order. -/
def visits (start stop : Cell) (fuel : Nat) : Option (List Cell) :=
  walkLine (fun c cells => cells ++ [c]) (fun c cells => cells ++ [c]) start stop fuel []

example : visits ⟨0, 0⟩ ⟨-4, 2⟩ 5 = some [⟨0, 0⟩, ⟨-1, 0⟩, ⟨-2, 1⟩, ⟨-3, 1⟩, ⟨-4, 2⟩] := by decide

/-! ## The error term

The error term is a linear function of the steps taken along and across, and its bounds are kept
by every pass. They say which of the two coordinates has to move next. -/

namespace Line

/-- The error term after `X` steps along and `Y` steps across. The bounds keep `x` moving
on a flat line and `y` on a steep one. -/
structure Reached (l : Line) (X Y err : Int) : Prop where
  err_eq : err = l.dx * (Y + 1) - l.dy * (X + 1)
  flat : l.dy ≤ l.dx →
    l.dx - 2 * l.dy ≤ 2 * err ∧ 2 * err < 3 * l.dx - 2 * l.dy ∧ -l.dy < 2 * err
  steep : l.dx < l.dy → 2 * l.dx - 3 * l.dy < 2 * err ∧ 2 * err ≤ 2 * l.dx - l.dy

/-- The steps of the longer side that are left. -/
def togo (l : Line) (X Y : Int) : Int := if l.dy ≤ l.dx then l.dx - X else l.dy - Y

/-- One step along the longer side, with or without one across. It never steps along a side that
has no length. -/
structure StepBy (l : Line) (a b : Int) : Prop where
  x : a = 0 ∨ a = 1
  y : b = 0 ∨ b = 1
  flat : l.dy ≤ l.dx → a = 1
  steep : l.dx < l.dy → b = 1
  no_x : l.dx = 0 → a = 0
  no_y : l.dy = 0 → b = 0

variable {l : Line} {X Y err : Int}

/-- The error term decides on one step. The four cases of the two tests are told apart by which
side is longer; a pass that moves neither coordinate is excluded by the bounds. -/
theorem Reached.next (h : l.Reached X Y err) (hdx : 0 ≤ l.dx) (hdy : 0 ≤ l.dy) (c : Cell) :
    ∃ a b, l.StepBy a b ∧ l.Reached (X + a) (Y + b) (l.next err c).1 ∧
      (l.next err c).2 = ⟨c.x + l.sx * a, c.y + l.sy * b⟩ := by
  have hflat := h.flat
  have hsteep := h.steep
  by_cases hx : 2 * err > -l.dy
  · by_cases hy : 2 * err < l.dx
    · refine ⟨1, 1, ⟨.inr rfl, .inr rfl, fun _ => rfl, fun _ => rfl, by omega, by omega⟩, ?_, ?_⟩
      · rw [Line.next]
        simp only [if_pos hx, if_pos hy]
        refine ⟨?_, by omega, by omega⟩
        rw [h.err_eq]
        ring
      · simp only [Line.next, if_pos hx, if_pos hy, mul_one]
    · refine ⟨1, 0, ⟨.inr rfl, .inl rfl, fun _ => rfl, by omega, by omega, fun _ => rfl⟩, ?_, ?_⟩
      · rw [Line.next]
        simp only [if_pos hx, if_neg hy]
        refine ⟨?_, by omega, by omega⟩
        rw [h.err_eq]
        ring
      · simp only [Line.next, if_pos hx, if_neg hy, mul_one, mul_zero, add_zero]
  · have hy : 2 * err < l.dx := by omega
    refine ⟨0, 1, ⟨.inl rfl, .inr rfl, by omega, fun _ => rfl, fun _ => rfl, by omega⟩, ?_, ?_⟩
    · rw [Line.next]
      simp only [if_neg hx, if_pos hy]
      refine ⟨?_, by omega, by omega⟩
      rw [h.err_eq]
      ring
    · simp only [Line.next, if_neg hx, if_pos hy, mul_one, mul_zero, add_zero]

/-- The cells of the next `n` passes. -/
def trail (l : Line) : (n : Nat) → (err : Int) → Cell → List Cell
  | 0, _, _ => []
  | n + 1, err, c => c :: l.trail n (l.next err c).1 (l.next err c).2

theorem StepBy.togo {a b : Int} (h : l.StepBy a b) : l.togo (X + a) (Y + b) = l.togo X Y - 1 := by
  rw [Line.togo, Line.togo]
  split_ifs with hflat
  · rw [h.flat hflat]
    omega
  · rw [h.steep (not_le.mp hflat)]
    omega

end Line

section Walk

variable (start stop : Cell)

/-- The cell after `X` steps along and `Y` across. -/
def cellAt (X Y : Int) : Cell :=
  ⟨start.x + (line start stop).sx * X, start.y + (line start stop).sy * Y⟩

theorem line_x : ((line start stop).sx = 1 ∨ (line start stop).sx = -1) ∧
    (line start stop).sx * (line start stop).dx = stop.x - start.x := by
  simp only [line]
  split_ifs with h
  · rw [abs_of_pos (by omega)]
    omega
  · rw [abs_of_nonpos (by omega)]
    omega

theorem line_y : ((line start stop).sy = 1 ∨ (line start stop).sy = -1) ∧
    (line start stop).sy * (line start stop).dy = stop.y - start.y := by
  simp only [line]
  split_ifs with h
  · rw [abs_of_pos (by omega)]
    omega
  · rw [abs_of_nonpos (by omega)]
    omega

variable {start stop} {X Y err : Int}

theorem eq_zero_of_between {d t : Int} (hlo : d ≤ 2 * (d * (t + 1)))
    (hhi : 2 * (d * (t + 1)) < 3 * d) : t = 0 := by
  have hd : 0 < d := by omega
  have hlt : t + 1 < 2 := lt_of_mul_lt_mul_left (a := d) (by omega) hd.le
  have hpos : 0 < t + 1 := (mul_pos_iff_of_pos_left hd).mp (by omega)
  omega

/-- The walk ends where the line does. -/
theorem cellAt_eq_stop (h : (line start stop).Reached X Y err)
    (hn : (line start stop).togo X Y = 0) : cellAt start stop X Y = stop := by
  obtain ⟨-, hx⟩ := line_x start stop
  obtain ⟨-, hy⟩ := line_y start stop
  have herr := h.err_eq
  suffices hXY : X = (line start stop).dx ∧ Y = (line start stop).dy by
    obtain ⟨x, y⟩ := stop
    simp only [cellAt, hXY, hx, hy, Cell.mk.injEq]
    omega
  rw [Line.togo] at hn
  split_ifs at hn with hflat
  · obtain ⟨hlo, hhi, -⟩ := h.flat hflat
    obtain rfl : X = (line start stop).dx := by omega
    have herr' : err = (line start stop).dx * (Y - (line start stop).dy + 1) -
        (line start stop).dy := by
      rw [herr]
      ring
    have hzero := eq_zero_of_between (d := (line start stop).dx)
      (t := Y - (line start stop).dy) (by omega) (by omega)
    omega
  · obtain ⟨hlo, hhi⟩ := h.steep (not_le.mp hflat)
    obtain rfl : Y = (line start stop).dy := by omega
    have herr' : err = (line start stop).dx -
        (line start stop).dy * (X - (line start stop).dx + 1) := by
      rw [herr]
      ring
    have hzero := eq_zero_of_between (d := (line start stop).dy)
      (t := X - (line start stop).dx) (by omega) (by omega)
    omega

theorem cellAt_ne_stop (hn : 0 < (line start stop).togo X Y) : cellAt start stop X Y ≠ stop := by
  obtain ⟨hsx, hx⟩ := line_x start stop
  obtain ⟨hsy, hy⟩ := line_y start stop
  intro heq
  have hcx := congrArg Cell.x heq
  have hcy := congrArg Cell.y heq
  simp only [cellAt] at hcx hcy
  rw [Line.togo] at hn
  split_ifs at hn with hflat
  · rcases hsx with hsx | hsx <;> rw [hsx] at hx hcx <;> omega
  · rcases hsy with hsy | hsy <;> rw [hsy] at hy hcy <;> omega

theorem cellAt_add (a b : Int) : cellAt start stop (X + a) (Y + b) =
    ⟨(cellAt start stop X Y).x + (line start stop).sx * a,
      (cellAt start stop X Y).y + (line start stop).sy * b⟩ := by
  simp only [cellAt, mul_add, add_assoc]

/-- The next pass starts one step further on. -/
theorem reached_next (h : (line start stop).Reached X Y err) :
    ∃ a b, (line start stop).StepBy a b ∧
      (line start stop).Reached (X + a) (Y + b)
        ((line start stop).next err (cellAt start stop X Y)).1 ∧
      ((line start stop).next err (cellAt start stop X Y)).2 =
        cellAt start stop (X + a) (Y + b) := by
  obtain ⟨a, b, hstep, hreached, hcell⟩ :=
    h.next (abs_nonneg _) (abs_nonneg _) (cellAt start stop X Y)
  exact ⟨a, b, hstep, hreached, hcell.trans (cellAt_add a b).symm⟩

/-- **The loop ends** in the pass that is at the end of the line, and it has then passed over the
cells of the trail. By induction on the steps that are left along the longer side. -/
theorem walk_eq {α : Type u} (pass hit : Cell → α → α) (n fuel : Nat)
    (h : (line start stop).Reached X Y err) (hn : (line start stop).togo X Y = n) (a : α) :
    (line start stop).walk pass hit fuel err (cellAt start stop X Y) a =
      if n < fuel then
        some (hit stop (((line start stop).trail n err (cellAt start stop X Y)).foldl
          (fun a c => pass c a) a))
      else none := by
  induction n generalizing X Y err fuel a with
  | zero =>
    rcases fuel with _ | fuel
    · rfl
    · have hstop := cellAt_eq_stop h hn
      rw [Line.walk, if_pos (by rw [hstop]; rfl), if_pos (Nat.succ_pos fuel), hstop]
      rfl
  | succ n ih =>
    rcases fuel with _ | fuel
    · rfl
    · have hne : cellAt start stop X Y ≠ (line start stop).stop := cellAt_ne_stop (by omega)
      obtain ⟨b, c, hstep, hreached, hcell⟩ := reached_next h
      have hnext := ih fuel hreached (by rw [hstep.togo]; omega) (pass (cellAt start stop X Y) a)
      rw [Line.walk, if_neg hne, hcell, hnext, Line.trail, hcell, List.foldl_cons]
      simp only [Nat.add_lt_add_iff_right]

/-- One step of the line, from one visited cell to the next. -/
def Forward (start stop c d : Cell) : Prop :=
  ∃ a b, (line start stop).StepBy a b ∧
    d = ⟨c.x + (line start stop).sx * a, c.y + (line start stop).sy * b⟩

theorem length_trail (l : Line) (n : Nat) (err : Int) (c : Cell) :
    (l.trail n err c).length = n := by
  induction n generalizing err c with
  | zero => rfl
  | succ n ih => rw [Line.trail, List.length_cons, ih]

theorem trail_spec (n : Nat) (h : (line start stop).Reached X Y err)
    (hn : (line start stop).togo X Y = n) :
    let cells := (line start stop).trail n err (cellAt start stop X Y) ++ [stop]
    cells.head? = some (cellAt start stop X Y) ∧ cells.IsChain (Forward start stop) ∧
      ∀ c ∈ cells, ∃ X Y err, c = cellAt start stop X Y ∧ (line start stop).Reached X Y err := by
  induction n generalizing X Y err with
  | zero =>
    have hstop := cellAt_eq_stop h hn
    refine ⟨congrArg some hstop.symm, .singleton _, fun c hc => ?_⟩
    obtain rfl := List.mem_singleton.mp hc
    exact ⟨X, Y, err, hstop.symm, h⟩
  | succ n ih =>
    obtain ⟨a, b, hstep, hreached, hcell⟩ := reached_next h
    obtain ⟨hhead, hchain, hmem⟩ := ih hreached (by rw [hstep.togo]; omega)
    rw [Line.trail, hcell, List.cons_append]
    refine ⟨rfl, List.isChain_cons.mpr ⟨fun d hd => ?_, hchain⟩, fun c hc => ?_⟩
    · obtain rfl : cellAt start stop (X + a) (Y + b) = d := by simpa [hhead] using hd
      exact ⟨a, b, hstep, cellAt_add a b⟩
    · rcases List.mem_cons.mp hc with rfl | hc
      · exact ⟨X, Y, err, rfl, h⟩
      · exact hmem c hc

theorem reached_start (hne : start ≠ stop) : (line start stop).Reached 0 0
    ((line start stop).dx - (line start stop).dy) := by
  have hsides : 0 < (line start stop).dx ∨ 0 < (line start stop).dy := by
    simp only [line, abs_pos, sub_ne_zero]
    by_contra hnot
    obtain ⟨x, y⟩ := start
    obtain ⟨x', y'⟩ := stop
    simp only [ne_eq, Cell.mk.injEq] at hne hnot
    omega
  have hdx : 0 ≤ (line start stop).dx := abs_nonneg _
  have hdy : 0 ≤ (line start stop).dy := abs_nonneg _
  exact ⟨by ring, by omega, by omega⟩

theorem cellAt_zero : cellAt start stop 0 0 = start := by
  simp only [cellAt, mul_zero, add_zero]

theorem togo_zero : (line start stop).togo 0 0 = steps start stop := by
  have hsteps : (steps start stop : Int) = max (line start stop).dx (line start stop).dy := by
    rw [steps, Nat.cast_max, Int.natCast_natAbs, Int.natCast_natAbs]
    rfl
  rw [Line.togo, hsteps]
  split_ifs
  · omega
  · omega

/-- The cells passed over on a line, the last one excepted. -/
def passed (start stop : Cell) : List Cell :=
  (line start stop).trail (steps start stop) ((line start stop).dx - (line start stop).dy) start

theorem steps_self (c : Cell) : steps c c = 0 := by simp [steps]

/-- What a walk along a line does. -/
theorem walkLine_eq {α : Type u} (pass hit : Cell → α → α) (start stop : Cell) (fuel : Nat)
    (a : α) : walkLine pass hit start stop fuel a =
      if steps start stop < fuel then
        some (hit stop ((passed start stop).foldl (fun a c => pass c a) a))
      else none := by
  by_cases hne : start = stop
  · subst hne
    rcases fuel with _ | fuel
    · rfl
    · rw [walkLine, Line.walk, if_pos (show start = (line start start).stop from rfl), passed,
        steps_self, if_pos (Nat.succ_pos fuel)]
      rfl
  · have h := walk_eq pass hit (steps start stop) fuel (reached_start hne) togo_zero a
    rw [cellAt_zero] at h
    exact h

/-! ## The visited cells

What the trail looks like in the plane: its cells are neighbours, no cell comes twice, and all
are near the straight line. -/

/-- Two cells that follow each other on a line: neighbours, on the way from its start to its
end. -/
structure LineStep (start stop c d : Cell) : Prop where
  ne : c ≠ d
  x : d.x = c.x ∨ d.x = c.x + (stop.x - start.x).sign
  y : d.y = c.y ∨ d.y = c.y + (stop.y - start.y).sign

/-- At most half a cell from the straight line, across its longer side. -/
def HalfCell (start stop c : Cell) : Prop :=
  2 * |(stop.x - start.x) * (c.y - start.y) - (stop.y - start.y) * (c.x - start.x)| ≤
    max |stop.x - start.x| |stop.y - start.y|

theorem sign_x (start stop : Cell) : (line start stop).dx = 0 ∨
    (line start stop).sx = (stop.x - start.x).sign := by
  rcases lt_trichotomy start.x stop.x with hlt | heq | hgt
  · exact .inr (by rw [Int.sign_eq_one_of_pos (by omega)]; exact if_pos hlt)
  · exact .inl (by simp only [line, heq, sub_self, abs_zero])
  · exact .inr (by rw [Int.sign_eq_neg_one_of_neg (by omega)]; exact if_neg (by omega))

theorem sign_y (start stop : Cell) : (line start stop).dy = 0 ∨
    (line start stop).sy = (stop.y - start.y).sign := by
  rcases lt_trichotomy start.y stop.y with hlt | heq | hgt
  · exact .inr (by rw [Int.sign_eq_one_of_pos (by omega)]; exact if_pos hlt)
  · exact .inl (by simp only [line, heq, sub_self, abs_zero])
  · exact .inr (by rw [Int.sign_eq_neg_one_of_neg (by omega)]; exact if_neg (by omega))

/-- What has been done so far of the longer side. -/
def along (start stop c : Cell) : Int :=
  if (line start stop).dy ≤ (line start stop).dx then (line start stop).sx * c.x
  else (line start stop).sy * c.y

theorem Forward.along_lt {c d : Cell} (h : Forward start stop c d) :
    along start stop c < along start stop d := by
  obtain ⟨a, b, hstep, rfl⟩ := h
  rw [along, along]
  split_ifs with hflat
  · obtain ⟨hsx | hsx, -⟩ := line_x start stop
    · rw [hstep.flat hflat, hsx]
      dsimp only
      omega
    · rw [hstep.flat hflat, hsx]
      dsimp only
      omega
  · obtain ⟨hsy | hsy, -⟩ := line_y start stop
    · rw [hstep.steep (not_le.mp hflat), hsy]
      dsimp only
      omega
    · rw [hstep.steep (not_le.mp hflat), hsy]
      dsimp only
      omega

theorem Forward.lineStep {c d : Cell} (h : Forward start stop c d) :
    LineStep start stop c d := by
  have hne : c ≠ d := fun heq => absurd h.along_lt (by rw [heq]; exact lt_irrefl _)
  obtain ⟨a, b, hstep, rfl⟩ := h
  refine ⟨hne, ?_, ?_⟩
  · rcases hstep.x with ha | ha
    · exact .inl (by rw [ha, mul_zero, add_zero])
    · rcases sign_x start stop with hdx | hsx
      · exact absurd (hstep.no_x hdx) (by omega)
      · exact .inr (by rw [ha, mul_one, hsx])
  · rcases hstep.y with hb | hb
    · exact .inl (by rw [hb, mul_zero, add_zero])
    · rcases sign_y start stop with hdy | hsy
      · exact absurd (hstep.no_y hdy) (by omega)
      · exact .inr (by rw [hb, mul_one, hsy])

theorem Line.Reached.halfCell (h : (line start stop).Reached X Y err) :
    HalfCell start stop (cellAt start stop X Y) := by
  obtain ⟨hsx, hx⟩ := line_x start stop
  obtain ⟨hsy, hy⟩ := line_y start stop
  have hcross : (stop.x - start.x) * ((cellAt start stop X Y).y - start.y) -
      (stop.y - start.y) * ((cellAt start stop X Y).x - start.x) =
      (line start stop).sx * (line start stop).sy *
        (err - (line start stop).dx + (line start stop).dy) := by
    rw [← hx, ← hy, h.err_eq]
    simp only [cellAt]
    ring
  have hsign : |(line start stop).sx * (line start stop).sy| = 1 := by
    rcases hsx with hsx | hsx <;> rcases hsy with hsy | hsy <;> rw [hsx, hsy] <;> rfl
  rw [HalfCell, hcross, abs_mul, hsign, one_mul]
  have hflat := h.flat
  have hsteep := h.steep
  change 2 * |_| ≤ max (line start stop).dx (line start stop).dy
  rcases abs_choice (err - (line start stop).dx + (line start stop).dy) with habs | habs
  · rw [habs]
    omega
  · rw [habs]
    omega

theorem passed_self (c : Cell) : passed c c = [] := by rw [passed, steps_self]; rfl

theorem length_passed (start stop : Cell) : (passed start stop).length = steps start stop :=
  length_trail _ _ _ _

theorem passed_spec (start stop : Cell) :
    (passed start stop ++ [stop]).head? = some start ∧
      (passed start stop ++ [stop]).IsChain (Forward start stop) ∧
      ∀ c ∈ passed start stop ++ [stop], HalfCell start stop c := by
  by_cases hne : start = stop
  · subst hne
    rw [passed_self]
    refine ⟨rfl, .singleton _, fun c hc => ?_⟩
    obtain rfl := List.mem_singleton.mp hc
    simp [HalfCell]
  · obtain ⟨hhead, hchain, hmem⟩ := trail_spec (steps start stop) (reached_start hne) togo_zero
    rw [cellAt_zero] at hhead hchain hmem
    refine ⟨hhead, hchain, fun c hc => ?_⟩
    obtain ⟨X, Y, err, rfl, hreached⟩ := hmem c hc
    exact hreached.halfCell

theorem foldl_concat (cells acc : List Cell) :
    cells.foldl (fun cells c => cells ++ [c]) acc = acc ++ cells := by
  induction cells generalizing acc with
  | nil => exact (List.append_nil acc).symm
  | cons c cells ih => rw [List.foldl_cons, ih, List.append_assoc, List.singleton_append]

/-- **The walk is exact.** It takes as many passes as the longer side has cells, and the cells
it visits are a line without a gap or a repetition, from the start to the end and never more
than half a cell beside the straight one. -/
theorem visits_exact (start stop : Cell) :
    ∃ cells : List Cell,
      (∀ fuel, visits start stop fuel = if steps start stop < fuel then some cells else none) ∧
      cells.length = steps start stop + 1 ∧ cells.Nodup ∧ cells.head? = some start ∧
      cells.getLast? = some stop ∧ cells.IsChain (LineStep start stop) ∧
      ∀ c ∈ cells, HalfCell start stop c := by
  obtain ⟨hhead, hchain, hhalf⟩ := passed_spec start stop
  refine ⟨passed start stop ++ [stop], fun fuel => ?_, ?_, ?_, hhead, List.getLast?_concat,
    hchain.imp fun c d h => h.lineStep, hhalf⟩
  · rw [visits, walkLine_eq, foldl_concat, List.nil_append]
  · rw [List.length_append, length_passed, List.length_singleton]
  · have halong : ((passed start stop ++ [stop]).map (along start stop)).IsChain (· < ·) :=
      (List.isChain_map _).mpr (hchain.imp fun c d h => h.along_lt)
    exact halong.pairwise.nodup.of_map _

end Walk

end AmrFramework.Planning
