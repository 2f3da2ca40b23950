import Mathlib.Algebra.Order.Field.Basic
import Mathlib.Order.Interval.Set.Basic
import Mathlib.Data.Set.Prod
import Mathlib.Tactic.Linarith
import Mathlib.Tactic.Ring

/-!
# Leaving a box along a ray

A ray starts at `r` and is at the point `q` of a box at time one. After that it goes on in the
direction it has, and so it leaves the box, if at all, through a wall that `r` is on the inner
side of. It is still in the box at a time exactly when it has met no such wall before
(`ray_mem_iff`). The start need not be in the box.

Both axes are treated alike and on their own, by the lemmas about intervals; which one decides is
the question of which is left first.
-/

namespace RayExit

universe u

variable {K : Type u} [Field K] [LinearOrder K]

/-- Along one axis: at `r` at time zero and at `q` at time one. -/
def along (r q t : K) : K := r + t * (q - r)

/-- An end of the interval that `r` is on the inner side of. Coming from the outer side, a ray
enters the interval there and does not leave it. -/
def Ahead (lo hi r w : K) : Prop := (w = lo ∧ lo < r) ∨ (w = hi ∧ r < hi)

/-- The ray from `r` through `q`. -/
def ray (r q : K × K) (t : K) : K × K := (along r.1 q.1 t, along r.2 q.2 t)

/-- A point of a wall that `r` is on the inner side of. -/
def OnWall (lo hi r p : K × K) : Prop :=
  p ∈ Set.Icc lo hi ∧ (Ahead lo.1 hi.1 r.1 p.1 ∨ Ahead lo.2 hi.2 r.2 p.2)

omit [LinearOrder K] in
@[simp] theorem ray_one (r q : K × K) : ray r q 1 = q := by
  rw [ray, along, along, one_mul, one_mul, add_sub_cancel, add_sub_cancel]

variable [IsStrictOrderedRing K]

section Axis

variable {lo hi r q s t : K}

/-- Between two times inside there is none outside: an interval is convex. -/
theorem along_mem (hq : q ∈ Set.Icc lo hi) (hs : along r q s ∈ Set.Icc lo hi)
    (ht : t ∈ Set.Icc 1 s) : along r q t ∈ Set.Icc lo hi := by
  have hfrom : along r q t = q + (t - 1) * (q - r) := by
    rw [along]
    ring
  have hto : along r q s = along r q t + (s - t) * (q - r) := by
    rw [along, along]
    ring
  have hbefore := sub_nonneg.mpr ht.1
  have hafter := sub_nonneg.mpr ht.2
  obtain hdir | hdir := le_total 0 (q - r)
  · have hpast := mul_nonneg hbefore hdir
    have hrest := mul_nonneg hafter hdir
    exact ⟨by linarith [hq.1], by linarith [hs.2]⟩
  · have hpast := mul_nonpos_of_nonneg_of_nonpos hbefore hdir
    have hrest := mul_nonpos_of_nonneg_of_nonpos hafter hdir
    exact ⟨by linarith [hs.1], by linarith [hq.2]⟩

omit [LinearOrder K] [IsStrictOrderedRing K] in
/-- A mirrored ray. The lower end is the upper one of the mirrored interval, so it is enough to
prove what happens at the upper end. -/
theorem along_neg (r q t : K) : along (-r) (-q) t = -along r q t := by
  rw [along, along]
  ring

/-- Past the upper end the ray is beyond it. -/
theorem lt_along (hw : along r q t = hi) (hr : r < hi) (ht : 1 ≤ t) (hts : t < s) :
    hi < along r q s := by
  rw [along] at hw
  have hdir : 0 < q - r := by
    by_contra hnot
    have := mul_nonpos_of_nonneg_of_nonpos (zero_le_one.trans ht) (not_lt.mp hnot)
    linarith
  have hfar := mul_lt_mul_of_pos_right hts hdir
  rw [along]
  linarith

/-- Past an end that is ahead of it the ray is outside. -/
theorem Ahead.along_notMem (h : Ahead lo hi r (along r q t)) (ht : 1 ≤ t) (hts : t < s) :
    along r q s ∉ Set.Icc lo hi := by
  obtain ⟨hw, hr⟩ | ⟨hw, hr⟩ := h
  · -- the lower end is the upper one of the mirrored ray
    have hfar := lt_along (by rw [along_neg, hw]) (neg_lt_neg hr) ht hts
    rw [along_neg, neg_lt_neg_iff] at hfar
    exact fun hmem => absurd hmem.1 (not_le.mpr hfar)
  · exact fun hmem => absurd hmem.2 (not_le.mpr (lt_along hw hr ht hts))

/-- When a ray that is beyond the upper end got there. -/
theorem exists_top (hq : q ≤ hi) (hs : 1 ≤ s) (hout : hi < along r q s) :
    ∃ t ∈ Set.Ico 1 s, along r q t = hi ∧ r < hi := by
  have hfrom : along r q s = q + (s - 1) * (q - r) := by
    rw [along]
    ring
  have hdir : 0 < q - r := by
    by_contra hnot
    have := mul_nonpos_of_nonneg_of_nonpos (sub_nonneg.mpr hs) (not_lt.mp hnot)
    linarith
  refine ⟨(hi - r) / (q - r), ⟨?_, ?_⟩, ?_, by linarith⟩
  · rw [one_le_div hdir]
    linarith
  · rw [div_lt_iff₀ hdir]
    rw [along] at hout
    linarith
  · rw [along, div_mul_cancel₀ _ hdir.ne', add_sub_cancel]

/-- When a ray that has left the interval did so, and that it was still inside at that time. -/
theorem exists_exit (hq : q ∈ Set.Icc lo hi) (hs : 1 ≤ s) (hout : along r q s ∉ Set.Icc lo hi) :
    ∃ t ∈ Set.Ico 1 s, Ahead lo hi r (along r q t) ∧ along r q t ∈ Set.Icc lo hi := by
  have hle : lo ≤ hi := hq.1.trans hq.2
  rw [Set.mem_Icc, not_and_or, not_le, not_le] at hout
  obtain hout | hout := hout
  · have hmirror : -lo < along (-r) (-q) s := by
      rw [along_neg]
      exact neg_lt_neg hout
    obtain ⟨t, ht, hend, hr⟩ := exists_top (neg_le_neg hq.1) hs hmirror
    rw [along_neg, neg_inj] at hend
    exact ⟨t, ht, .inl ⟨hend, neg_lt_neg_iff.mp hr⟩, hend.ge, hend.trans_le hle⟩
  · obtain ⟨t, ht, hend, hr⟩ := exists_top hq.2 hs hout
    exact ⟨t, ht, .inr ⟨hend, hr⟩, hle.trans_eq hend.symm, hend.le⟩

end Axis

variable {lo hi r q p : K × K} {s t : K}

omit [Field K] [IsStrictOrderedRing K] in
theorem mem_box : p ∈ Set.Icc lo hi ↔ p.1 ∈ Set.Icc lo.1 hi.1 ∧ p.2 ∈ Set.Icc lo.2 hi.2 := by
  rw [Set.Icc_prod_eq]
  exact Set.mem_prod

theorem OnWall.ray_notMem (h : OnWall lo hi r (ray r q t)) (ht : 1 ≤ t) (hts : t < s) :
    ray r q s ∉ Set.Icc lo hi := by
  intro hmem
  obtain ⟨hx, hy⟩ := mem_box.mp hmem
  obtain h | h := h.2
  · exact h.along_notMem ht hts hx
  · exact h.along_notMem ht hts hy

/-- Of two axes the one that is left first decides: at that time the other one has not been left,
so the point is on the wall of the box and not beyond its end. -/
theorem exists_onWall (hq : q ∈ Set.Icc lo hi) (hs : 1 ≤ s) (hout : ray r q s ∉ Set.Icc lo hi) :
    ∃ t ∈ Set.Ico 1 s, OnWall lo hi r (ray r q t) := by
  obtain ⟨hqx, hqy⟩ := mem_box.mp hq
  by_cases hx : along r.1 q.1 s ∈ Set.Icc lo.1 hi.1
  · have hy : along r.2 q.2 s ∉ Set.Icc lo.2 hi.2 := fun hy => hout (mem_box.mpr ⟨hx, hy⟩)
    obtain ⟨t, ht, hahead, hmem⟩ := exists_exit hqy hs hy
    exact ⟨t, ht, mem_box.mpr ⟨along_mem hqx hx ⟨ht.1, ht.2.le⟩, hmem⟩, .inr hahead⟩
  · obtain ⟨tx, htx, haheadx, hmemx⟩ := exists_exit hqx hs hx
    by_cases hy : along r.2 q.2 tx ∈ Set.Icc lo.2 hi.2
    · exact ⟨tx, htx, mem_box.mpr ⟨hmemx, hy⟩, .inl haheadx⟩
    · -- the other axis has been left before
      obtain ⟨ty, hty, haheady, hmemy⟩ := exists_exit hqy htx.1 hy
      exact ⟨ty, ⟨hty.1, hty.2.trans htx.2⟩,
        mem_box.mpr ⟨along_mem hqx hmemx ⟨hty.1, hty.2.le⟩, hmemy⟩, .inr haheady⟩

/-- **The ray is still in the box** when it has met no wall ahead of it, and only then. At time
one it is inside, and if it is outside later it has crossed a wall in between. -/
theorem ray_mem_iff (hq : q ∈ Set.Icc lo hi) (hs : 1 ≤ s) :
    ray r q s ∈ Set.Icc lo hi ↔ ∀ t ∈ Set.Ico 1 s, ¬ OnWall lo hi r (ray r q t) := by
  refine ⟨?_, ?_⟩
  · intro hmem t ht hwall
    exact hwall.ray_notMem ht.1 ht.2 hmem
  · intro hnone
    by_contra hout
    obtain ⟨t, ht, hwall⟩ := exists_onWall hq hs hout
    exact hnone t ht hwall

end RayExit
