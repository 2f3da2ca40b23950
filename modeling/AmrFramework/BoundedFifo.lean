import AmrFramework.Runs
import Mathlib.Data.Nat.ModEq

/-!
# Bounded queues

A queue of at most `bound` elements, as a labelled step relation: what it takes
in comes out in that order, and it refuses an element when it is full only, and
has none when it is empty only. `Cyclic` is a queue that is kept in an array used
round and round, with the arithmetic of its two ends.
-/

namespace BoundedFifo

open Runs

universe u

variable {α : Type u}

/-! ## The queue

A step relation and not functions: the steps are what two parties can see of a queue between
them, whatever it is made of. -/

/-- What a queue can be seen to do. The two acts that change nothing are visible, too, so that a
refusal can be wrong. -/
inductive Act (α : Type u) : Type u
  | push (a : α)
  | refuse
  | pop (a : α)
  | nothing

/-- The steps of a queue, the oldest element first. A queue that is not full may not refuse, and
one that is not empty may not answer `nothing`. -/
inductive Step (bound : Nat) : List α → Act α → List α → Prop
  | push {q : List α} (a : α) : q.length < bound → Step bound q (.push a) (q ++ [a])
  | refuse {q : List α} : q.length = bound → Step bound q .refuse q
  | pop {q : List α} (a : α) : Step bound (a :: q) (.pop a) q
  | nothing : Step bound [] .nothing []

/-- The elements pushed, oldest first. -/
def pushed : List (Act α) → List α
  | [] => []
  | .push a :: acts => pushed acts ++ [a]
  | .refuse :: acts | .pop _ :: acts | .nothing :: acts => pushed acts

theorem pushed_append (later acts : List (Act α)) :
    pushed (later ++ acts) = pushed acts ++ pushed later := by
  induction later with
  | nil => exact (List.append_nil _).symm
  | cons act later ih =>
    cases act with
    | push a =>
      rw [List.cons_append, pushed, pushed, ih, List.append_assoc]
    | _ => exact ih

/-- The elements popped, oldest first. -/
def popped : List (Act α) → List α
  | [] => []
  | .pop a :: acts => popped acts ++ [a]
  | .push _ :: acts | .refuse :: acts | .nothing :: acts => popped acts

/-- **Conservation.** What was pushed is what was popped, followed by what is in the queue, which
is not more than the bound. By induction over the run, one case for each kind of step. -/
theorem run_pushed {bound : Nat} {acts : List (Act α)} {q : List α}
    (hr : Run (Step bound) [] acts q) : pushed acts = popped acts ++ q ∧ q.length ≤ bound := by
  induction hr with
  | start => exact ⟨rfl, Nat.zero_le bound⟩
  | snoc _ hs ih =>
    obtain ⟨heq, hbound⟩ := ih
    cases hs with
    | push a hroom =>
      rw [pushed, popped, heq, List.append_assoc, List.length_append]
      exact ⟨rfl, hroom⟩
    | refuse => exact ⟨heq, hbound⟩
    | pop a =>
      rw [pushed, popped, heq, List.append_assoc]
      exact ⟨rfl, Nat.le_of_succ_le hbound⟩
    | nothing => exact ⟨heq, hbound⟩

/-! ## Cyclic arrays

The ends are counted up without bound and reduced modulo `c` where a slot is looked up. One slot
stays free, so that the ends meet when the queue is empty and only then. -/

/-- The slots of a cyclic array of `c` slots from `first` on hold `q`, with at
least one slot left. -/
structure Cyclic (c : Nat) (slots : Nat → α) (first : Nat) (q : List α) : Prop where
  length_lt : q.length < c
  getElem_eq : ∀ j, (hj : j < q.length) → slots ((first + j) % c) = q[j]

variable {c first : Nat} {slots : Nat → α} {q : List α} {a : α}

/-- Slots less than a round apart are different. -/
theorem slot_inj (first : Nat) {i j : Nat} (hi : i < c) (hj : j < c)
    (h : (first + i) % c = (first + j) % c) : i = j :=
  Nat.ModEq.eq_of_lt_of_lt (Nat.ModEq.add_left_cancel' first h) hi hj

/-- The ends meet when the queue is empty. -/
theorem Cyclic.empty_iff (h : Cyclic c slots first q) :
    first % c = (first + q.length) % c ↔ q = [] := by
  refine ⟨fun heq => ?_, fun hempty => by rw [hempty]; rfl⟩
  have hpos : 0 < c := Nat.zero_lt_of_lt h.length_lt
  have hzero := slot_inj first (i := 0) hpos h.length_lt heq
  exact List.length_eq_zero_iff.mp hzero.symm

/-- One more would make the ends meet when one slot is left. -/
theorem Cyclic.full_iff (h : Cyclic c slots first q) :
    (first + q.length + 1) % c = first % c ↔ q.length + 1 = c := by
  refine ⟨fun heq => ?_, fun hfull => ?_⟩
  · by_contra hne
    have hlt : q.length + 1 < c := Nat.lt_of_le_of_ne h.length_lt hne
    have hpos : 0 < c := Nat.zero_lt_of_lt hlt
    exact absurd (slot_inj first hlt hpos heq) (Nat.succ_ne_zero _)
  · rw [Nat.add_assoc, hfull, Nat.add_mod_right]

/-- The slot behind the last holds nothing that counts. -/
theorem Cyclic.write (h : Cyclic c slots first q) (a : α) :
    Cyclic c (Function.update slots ((first + q.length) % c) a) first q := by
  refine ⟨h.length_lt, fun j hj => ?_⟩
  have hother : (first + j) % c ≠ (first + q.length) % c := fun heq =>
    absurd (slot_inj first (Nat.lt_trans hj h.length_lt) h.length_lt heq) (Nat.ne_of_lt hj)
  rw [Function.update_of_ne hother]
  exact h.getElem_eq j hj

/-- The slot behind the last becomes the last when its element is there and another slot is left. -/
theorem Cyclic.push (h : Cyclic c slots first q) (hroom : q.length + 1 < c)
    (hslot : slots ((first + q.length) % c) = a) : Cyclic c slots first (q ++ [a]) := by
  refine ⟨by rw [List.length_append]; exact hroom, fun j hj => ?_⟩
  obtain hold | hnew := Nat.lt_or_ge j q.length
  · rw [List.getElem_append_left hold]
    exact h.getElem_eq j hold
  · rw [List.length_append] at hj
    obtain rfl : j = q.length := Nat.le_antisymm (Nat.le_of_lt_succ hj) hnew
    rw [List.getElem_concat_length rfl]
    exact hslot

theorem Cyclic.head (h : Cyclic c slots first (a :: q)) : slots (first % c) = a :=
  h.getElem_eq 0 (Nat.succ_pos _)

/-- The first slot is given back by moving on; what it holds does not matter any more. -/
theorem Cyclic.pop (h : Cyclic c slots first (a :: q)) : Cyclic c slots (first + 1) q := by
  refine ⟨Nat.lt_of_succ_lt h.length_lt, fun j hj => ?_⟩
  rw [Nat.add_assoc, Nat.add_comm 1 j]
  exact h.getElem_eq (j + 1) (Nat.succ_lt_succ hj)

end BoundedFifo
