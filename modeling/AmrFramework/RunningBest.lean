import Mathlib.Order.Lattice
import Mathlib.Data.List.Induction

/-!
# The best so far

A loop that looks for the candidate with the least value below a bound keeps that value and
the name of its candidate. At the end it has found one that is least, or there is none below
the bound (`best_foldl`).

The candidates may be any of the elements, and the name any function of them: a loop over indexed
entries that skips some of them is of this form. Of two equal values the first is kept.
-/

namespace RunningBest

universe u v w

variable {α : Type u} {β : Type v} {ι : Type w} [LinearOrder β]

/-- One more element: the least value so far, and whose it is. -/
def look (cand : α → Prop) [DecidablePred cand] (value : α → β) (name : α → ι)
    (best : β × Option ι) (a : α) : β × Option ι :=
  if cand a ∧ value a < best.1 then (value a, some (name a)) else best

/-- The best of some elements: the first one with the least value below the bound, or none. It is
what a loop with a strict comparison computes. -/
structure Best (cand : α → Prop) (value : α → β) (name : α → ι) (bound : β) (l : List α)
    (best : β × Option ι) : Prop where
  found : ∀ i, best.2 = some i →
    ∃ a ∈ l, cand a ∧ name a = i ∧ best.1 = value a ∧ value a < bound
  missing : best.2 = none → best.1 = bound
  le : best.1 ≤ bound
  least : ∀ a ∈ l, cand a → best.1 ≤ value a

variable {cand : α → Prop} {value : α → β} {name : α → ι} {bound : β} {l : List α}
  {best : β × Option ι}

/-- An element that is no better changes nothing. -/
theorem Best.keep (h : Best cand value name bound l best) {a : α}
    (ha : cand a → best.1 ≤ value a) : Best cand value name bound (l ++ [a]) best where
  found := by
    intro i hi
    obtain ⟨b, hb, hrest⟩ := h.found i hi
    exact ⟨b, List.mem_append_left _ hb, hrest⟩
  missing := h.missing
  le := h.le
  least := by
    intro b hb hcand
    rcases List.mem_append.mp hb with hb | hb
    · exact h.least b hb hcand
    · obtain rfl := List.mem_singleton.mp hb
      exact ha hcand

/-- One more element: either it is better, or what was the best stays it. -/
theorem Best.look [DecidablePred cand] (h : Best cand value name bound l best) (a : α) :
    Best cand value name bound (l ++ [a]) (look cand value name best a) := by
  rw [RunningBest.look]
  split_ifs with hless
  · refine ⟨fun i hi => ?_, nofun, hless.2.le.trans h.le, fun b hb hcand => ?_⟩
    · exact ⟨a, List.mem_append_right _ (List.mem_singleton_self a), hless.1, Option.some.inj hi,
        rfl, hless.2.trans_le h.le⟩
    · rcases List.mem_append.mp hb with hb | hb
      · exact hless.2.le.trans (h.least b hb hcand)
      · obtain rfl := List.mem_singleton.mp hb
        exact le_rfl
  · exact h.keep fun hcand => not_lt.mp fun hlt => hless ⟨hcand, hlt⟩

/-- **The loop** finds the best of its list, by induction from the end of the list, where the
loop has got to. -/
theorem best_foldl (cand : α → Prop) [DecidablePred cand] (value : α → β) (name : α → ι)
    (bound : β) (l : List α) :
    Best cand value name bound l (l.foldl (RunningBest.look cand value name) (bound, none)) := by
  induction l using List.reverseRecOn with
  | nil => exact ⟨nofun, fun _ => rfl, le_rfl, fun _ ha => absurd ha List.not_mem_nil⟩
  | append_singleton l a ih =>
    rw [List.foldl_append]
    exact ih.look a

end RunningBest
