import Mathlib.Data.List.Basic

/-!
# Joining with a separator

Two lists joined by a separator. Where the separator is in neither the first parts nor, from
the other end, in the last ones, the joined list determines both parts. A joined list that
has the separator once only (`append_sep_inj`) determines them whatever it is compared with.

Nothing is assumed of what is between the separators, so the parts may contain anything else.
-/

namespace Separators

universe u

variable {α : Type u} {sep : α} {xs xs' ys ys' : List α}

/-- What comes before the first separator, and what comes after it. -/
theorem eq_of_append_sep (hxs : sep ∉ xs) (hxs' : sep ∉ xs')
    (h : xs ++ sep :: ys = xs' ++ sep :: ys') : xs = xs' ∧ ys = ys' := by
  induction xs generalizing xs' with
  | nil =>
    cases xs' with
    | nil => exact ⟨rfl, List.tail_eq_of_cons_eq h⟩
    | cons x xs' =>
      have hhead : sep = x := List.head_eq_of_cons_eq h
      exact absurd (hhead ▸ List.mem_cons_self) hxs'
  | cons x xs ih =>
    cases xs' with
    | nil =>
      have hhead : x = sep := List.head_eq_of_cons_eq h
      exact absurd (hhead ▸ List.mem_cons_self) hxs
    | cons x' xs' =>
      obtain ⟨rfl, hrest⟩ := List.cons.inj h
      obtain ⟨rfl, rfl⟩ := ih (fun hx => hxs (List.mem_cons_of_mem _ hx))
        (fun hx => hxs' (List.mem_cons_of_mem _ hx)) hrest
      exact ⟨rfl, rfl⟩

/-- The same for the last separator. -/
theorem eq_of_sep_append (hys : sep ∉ ys) (hys' : sep ∉ ys')
    (h : xs ++ sep :: ys = xs' ++ sep :: ys') : xs = xs' ∧ ys = ys' := by
  have hreverse : ys.reverse ++ sep :: xs.reverse = ys'.reverse ++ sep :: xs'.reverse := by
    simpa using congrArg List.reverse h
  obtain ⟨hy, hx⟩ := eq_of_append_sep (fun hmem => hys (List.mem_reverse.mp hmem))
    (fun hmem => hys' (List.mem_reverse.mp hmem)) hreverse
  exact ⟨List.reverse_injective hx, List.reverse_injective hy⟩

/-- A list with one separator is joined in one way only. -/
theorem append_sep_inj (hxs : sep ∉ xs) (hys : sep ∉ ys) :
    xs' ++ sep :: ys' = xs ++ sep :: ys ↔ xs' = xs ∧ ys' = ys := by
  refine ⟨?_, ?_⟩
  · intro h
    have hxs' : sep ∉ xs' := by
      intro hmem
      -- the first separator of the left side is before the second one, the right side has one
      obtain ⟨as, bs, rfl, has⟩ := List.eq_append_cons_of_mem hmem
      rw [List.append_assoc, List.cons_append] at h
      obtain ⟨-, hrest⟩ := eq_of_append_sep has hxs h
      rw [← hrest] at hys
      exact hys (List.mem_append_right _ List.mem_cons_self)
    exact eq_of_append_sep hxs' hxs h
  · rintro ⟨rfl, rfl⟩
    rfl

end Separators
