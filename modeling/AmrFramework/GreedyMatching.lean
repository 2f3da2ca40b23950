import Mathlib.Logic.Function.Basic
import Mathlib.Data.List.Basic

/-!
# Greedy matching

One side chooses in turn from what the other side has left. If everyone takes
something in reach while there is any, the result is a matching that cannot be
extended: nobody is left without a partner next to one that is left over
(`Maximal`).

Nothing is said about how good the matching is as a whole. What a caller gets is maximality,
which is what an argument of the form "it was left over, so nothing suitable was there" needs.
-/

namespace GreedyMatching

universe u v

variable {α : Type u} {τ : Type v} [DecidableEq τ]

/-- What each one takes, and what is taken in the end. -/
def run (pick : α → (τ → Bool) → Option τ) : List α → (τ → Bool) → List (Option τ) × (τ → Bool)
  | [], taken => ([], taken)
  | a :: l, taken =>
    match pick a taken with
    | none =>
      let rest := run pick l taken
      (none :: rest.1, rest.2)
    | some t =>
      let rest := run pick l (Function.update taken t true)
      (some t :: rest.1, rest.2)

/-- Everyone takes something in reach that is not taken, while there is any. Which one is left
open, so that the nearest may be taken, or the first. -/
structure Picks (pick : α → (τ → Bool) → Option τ) (near : α → τ → Prop) : Prop where
  takes : ∀ {a taken t}, pick a taken = some t → taken t = false ∧ near a t
  leaves : ∀ {a taken}, pick a taken = none → ∀ t, taken t = false → ¬near a t

/-- A matching of what was not `taken` that cannot be extended: everyone without a partner has
only taken ones in reach. -/
structure Maximal (near : α → τ → Prop) (l : List α) (taken : τ → Bool)
    (result : List (Option τ) × (τ → Bool)) : Prop where
  length : result.1.length = l.length
  /-- nothing is taken twice -/
  injective : ∀ (i j : Nat) t, result.1[i]? = some (some t) → result.1[j]? = some (some t) → i = j
  fresh : ∀ (i : Nat) t, result.1[i]? = some (some t) → taken t = false
  reach : ∀ (i : Nat) a t, l[i]? = some a → result.1[i]? = some (some t) → near a t
  taken_iff : ∀ t, result.2 t = true ↔ taken t = true ∨ some t ∈ result.1
  maximal : ∀ (i : Nat) a t,
    l[i]? = some a → result.1[i]? = some none → result.2 t = false → ¬near a t

variable {pick : α → (τ → Bool) → Option τ} {near : α → τ → Prop}

variable {a : α} {l : List α} {taken : τ → Bool} {result : List (Option τ) × (τ → Bool)}

omit [DecidableEq τ] in
/-- One who finds nothing is left next to nobody. -/
theorem Maximal.skip (h : Maximal near l taken result) (hnear : ∀ t, taken t = false → ¬near a t) :
    Maximal near (a :: l) taken (none :: result.1, result.2) where
  length := congrArg (· + 1) h.length
  injective := by
    rintro (_ | i) (_ | j) t hi hj
    · rfl
    · cases hi
    · cases hj
    · exact congrArg (· + 1) (h.injective i j t hi hj)
  fresh := by
    rintro (_ | i) t hi
    · cases hi
    · exact h.fresh i t hi
  reach := by
    rintro (_ | i) b t hb hi
    · cases hi
    · exact h.reach i b t hb hi
  taken_iff := by
    intro t
    simpa using h.taken_iff t
  maximal := by
    rintro (_ | i) b t hb hi ht
    · obtain rfl : a = b := Option.some.inj hb
      refine hnear t (Bool.eq_false_iff.mpr fun htaken => ?_)
      rw [(h.taken_iff t).mpr (.inl htaken)] at ht
      cases ht
    · exact h.maximal i b t hb hi ht

/-- What one takes, the others do not. -/
theorem Maximal.take {s : τ} (h : Maximal near l (Function.update taken s true) result)
    (hs : taken s = false) (hnear : near a s) :
    Maximal near (a :: l) taken (some s :: result.1, result.2) := by
  have hne : ∀ {i : Nat} {t}, result.1[i]? = some (some t) → t ≠ s := by
    rintro i t hi rfl
    have hfresh := h.fresh i t hi
    rw [Function.update_self] at hfresh
    cases hfresh
  refine ⟨congrArg (· + 1) h.length, ?_, ?_, ?_, ?_, ?_⟩
  · rintro (_ | i) (_ | j) t hi hj
    · rfl
    · exact absurd (Option.some.inj (Option.some.inj hi)).symm (hne hj)
    · exact absurd (Option.some.inj (Option.some.inj hj)).symm (hne hi)
    · exact congrArg (· + 1) (h.injective i j t hi hj)
  · rintro (_ | i) t hi
    · obtain rfl : s = t := Option.some.inj (Option.some.inj hi)
      exact hs
    · have hfresh := h.fresh i t hi
      rwa [Function.update_of_ne (hne hi)] at hfresh
  · rintro (_ | i) b t hb hi
    · obtain rfl : a = b := Option.some.inj hb
      obtain rfl : s = t := Option.some.inj (Option.some.inj hi)
      exact hnear
    · exact h.reach i b t hb hi
  · intro t
    have htaken := h.taken_iff t
    by_cases hts : t = s
    · subst hts
      simpa using htaken
    · rw [Function.update_of_ne hts] at htaken
      simpa [hts] using htaken
  · rintro (_ | i) b t hb hi ht
    · cases hi
    · exact h.maximal i b t hb hi ht

/-- **Greedy choices** are a matching that cannot be extended. By induction on the list: the
first one either finds nothing, and then nothing that is free is near it (`Maximal.skip`), or
takes something away from the others (`Maximal.take`). -/
theorem run_maximal (h : Picks pick near) (l : List α) (taken : τ → Bool) :
    Maximal near l taken (run pick l taken) := by
  induction l generalizing taken with
  | nil =>
    refine ⟨rfl, ?_, ?_, ?_, ?_, ?_⟩ <;> simp [run]
  | cons a l ih =>
    rw [run]
    split
    · next hnone => exact (ih taken).skip (h.leaves hnone)
    · next s hsome =>
      obtain ⟨hs, hnear⟩ := h.takes hsome
      exact (ih (Function.update taken s true)).take hs hnear

end GreedyMatching
