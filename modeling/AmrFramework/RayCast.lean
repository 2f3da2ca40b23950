import AmrFramework.RayExit
import Mathlib.Order.Bounds.Basic
import Mathlib.Tactic.FieldSimp
import Mathlib.Tactic.LinearCombination

/-!
# Rays and segments in the plane

A ray leaves `o` with the velocity `d`. Where it is not parallel to a line it meets the line
once, at a time and at a place on the line that Cramer's rule computes (`reach_eq_iff`). Of the
times at which it meets a family of segments, a loop that keeps the minimum finds the least
(`isLeast_foldl`), and so it finds the first one.

A ray that leaves a box does so through a side that it moves towards (`exists_side`).
-/

namespace RayCast

universe u

variable {K : Type u} [Field K]

/-- The cross product. -/
def cross (a b : K × K) : K := a.1 * b.2 - a.2 * b.1

/-- Where one is after a time. -/
def reach (o d : K × K) (t : K) : K × K := (o.1 + t * d.1, o.2 + t * d.2)

variable {o d p e : K × K} {t u : K}

/-- Going on for a while longer is starting from where one is. -/
theorem reach_add (o d : K × K) (s t : K) : reach o d (s + t) = reach (reach o d s) d t := by
  simp only [reach, Prod.mk.injEq]
  exact ⟨by ring, by ring⟩

/-- **Cramer's rule**: when and where a ray meets a line that it is not parallel to. Both
unknowns are quotients with the same denominator. -/
theorem reach_eq_iff (h : cross d e ≠ 0) :
    reach o d t = reach p e u ↔
      t = cross (p - o) e / cross d e ∧ u = cross (p - o) d / cross d e := by
  rw [eq_div_iff h, eq_div_iff h]
  simp only [reach, Prod.mk.injEq, cross, Prod.fst_sub, Prod.snd_sub] at h ⊢
  refine ⟨?_, ?_⟩
  · rintro ⟨hx, hy⟩
    refine ⟨?_, ?_⟩
    · linear_combination e.2 * hx - e.1 * hy
    · linear_combination d.2 * hx - d.1 * hy
  · rintro ⟨ht, hu⟩
    refine ⟨mul_right_cancel₀ h ?_, mul_right_cancel₀ h ?_⟩
    · linear_combination d.1 * ht - e.1 * hu
    · linear_combination d.2 * ht - e.2 * hu

/-! ## The first hit

The loop over the segments starts with the maximal range and takes the minimum with every hit. -/

section First

variable [LinearOrder K]

/-- One more candidate, if there is one. Candidates come in any order, and the same one may come
twice. -/
def closer (best : K) : Option K → K
  | some t => min best t
  | none => best

omit [Field K] in
/-- **The loop** finds the least of the bound and the candidates. Candidates without a hit do not
count. -/
theorem isLeast_foldl (bound : K) (hits : List (Option K)) :
    IsLeast (insert bound {t | some t ∈ hits}) (hits.foldl closer bound) := by
  induction hits generalizing bound with
  | nil =>
    refine ⟨Set.mem_insert _ _, ?_⟩
    rintro t (rfl | ht)
    · exact le_rfl
    · exact absurd ht List.not_mem_nil
  | cons hit hits ih =>
    obtain ⟨hmem, hleast⟩ := ih (closer bound hit)
    have hle : hits.foldl closer (closer bound hit) ≤ closer bound hit :=
      hleast (Set.mem_insert _ _)
    rw [List.foldl_cons]
    refine ⟨?_, ?_⟩
    · obtain hnew | hlater := hmem
      · rw [hnew]
        cases hit with
        | none => exact Set.mem_insert _ _
        | some t =>
          rw [closer]
          obtain hmin | hmin := min_choice bound t
          · exact .inl hmin
          · rw [hmin]
            exact .inr List.mem_cons_self
      · exact .inr (List.mem_cons_of_mem _ hlater)
    · rintro t (rfl | ht)
      · refine hle.trans ?_
        cases hit with
        | none => exact le_rfl
        | some s => exact min_le_left _ _
      · obtain rfl | ht := List.mem_cons.mp ht
        · exact hle.trans (min_le_right _ _)
        · exact hleast (.inr ht)

end First

/-! ## Leaving a box

Turned around in time, a ray that leaves a box is one that was in it, so the results on exits
apply to the ray that comes from one step before. -/

section Box

variable [LinearOrder K] [IsStrictOrderedRing K] {lo hi : K × K} {r : K}

/-- Along one axis: an end that the ray moves towards. -/
def Towards (lo hi velocity w : K) : Prop := (w = lo ∧ velocity < 0) ∨ (w = hi ∧ 0 < velocity)

/-- An end that is ahead of where the ray would have come from is one that it moves towards. The
two notions of exit agree, one by the start and one by the velocity. -/
theorem towards_of_ahead {lo hi x v s : K} (hs : 1 ≤ s)
    (h : RayExit.Ahead lo hi (x - v) (RayExit.along (x - v) x s)) :
    Towards lo hi v (RayExit.along (x - v) x s) := by
  have hv : RayExit.along (x - v) x s = x - v + s * v := by
    rw [RayExit.along, sub_sub_cancel]
  have hpos : 0 < s := zero_lt_one.trans_le hs
  obtain ⟨hend, hlt⟩ | ⟨hend, hlt⟩ := h
  · refine .inl ⟨hend, ?_⟩
    rw [← hend, hv] at hlt
    exact neg_of_mul_neg_right (by linarith) hpos.le
  · refine .inr ⟨hend, ?_⟩
    rw [← hend, hv] at hlt
    exact pos_of_mul_pos_right (by linarith) hpos.le

/-- **A ray that has left a box** met a side of it before, one that it moves towards. Take the
first time at which it leaves one of the two intervals. -/
theorem exists_side (ho : o ∈ Set.Icc lo hi) (hr : 0 ≤ r) (hout : reach o d r ∉ Set.Icc lo hi) :
    ∃ t ∈ Set.Ico 0 r, reach o d t ∈ Set.Icc lo hi ∧
      (Towards lo.1 hi.1 d.1 (reach o d t).1 ∨ Towards lo.2 hi.2 d.2 (reach o d t).2) := by
  have hray : ∀ s, RayExit.ray (o - d) o s = reach o d (s - 1) := fun s => by
    simp only [RayExit.ray, RayExit.along, reach, Prod.fst_sub, Prod.snd_sub, Prod.mk.injEq]
    exact ⟨by ring, by ring⟩
  have hend : RayExit.ray (o - d) o (r + 1) = reach o d r := by
    rw [hray, add_sub_cancel_right]
  rw [← hend] at hout
  obtain ⟨s, hs, hwall, hahead⟩ := RayExit.exists_onWall ho (by linarith) hout
  refine ⟨s - 1, ⟨sub_nonneg.mpr hs.1, by linarith [hs.2]⟩, ?_⟩
  rw [← hray]
  exact ⟨hwall, hahead.imp (towards_of_ahead hs.1) (towards_of_ahead hs.1)⟩

end Box

end RayCast
