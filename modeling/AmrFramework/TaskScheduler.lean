import Mathlib.Data.Int.Order.Basic
import Mathlib.Data.List.TakeWhile
import Mathlib.Data.Multiset.AddSub

/-!
# The task scheduler

`TaskScheduler` holds the running task and the queue of ready ones. A new task
of higher priority takes the place of a preemptible running one, which goes back
to the *front* of the queue, with no comparison; every other new task is queued
behind its equals. The queue stays sorted all the same:

* `Ordered s` is the invariant that carries it: a preemptible running task is at
  least as urgent as everything queued, so that the front is its place;
* `after calls` is the scheduler after the calls (newest first), and every
  clause is about it.
-/

namespace AmrFramework.Scheduling

structure Task where
  id : Nat
  name : String
  /-- larger is more urgent -/
  priority : Int
  /-- an urgent task may declare that it cannot be preempted -/
  preemptible : Bool := true
  deriving DecidableEq, Repr

/-- The data members: `running_` and `ready_`. The queue is kept sorted by `insertByPriority`,
and its front is what runs next. -/
structure TaskScheduler where
  running : Option Task := none
  ready : List Task := []
  deriving DecidableEq, Repr

/-- `insert_by_priority`: behind every task that is as urgent. -/
def insertByPriority (t : Task) (ready : List Task) : List Task :=
  ready.takeWhile (fun q => t.priority ≤ q.priority) ++
    t :: ready.dropWhile (fun q => t.priority ≤ q.priority)

/-- `advance`. -/
def TaskScheduler.advance (s : TaskScheduler) : TaskScheduler :=
  match s.ready with
  | [] => s
  | t :: ready => ⟨some t, ready⟩

/-- The task takes the place of the running one. -/
def TaskScheduler.Preempts (s : TaskScheduler) (t : Task) : Prop :=
  ∃ r ∈ s.running, r.priority < t.priority ∧ r.preemptible = true

instance (s : TaskScheduler) (t : Task) : Decidable (s.Preempts t) :=
  inferInstanceAs (Decidable (∃ r ∈ s.running, _))

/-- `submit`: `true` when the task preempted the running one. -/
def TaskScheduler.submit (s : TaskScheduler) (t : Task) : Bool × TaskScheduler :=
  if s.Preempts t then
    (true, ⟨some t, s.running.toList ++ s.ready⟩)
  else
    let queued := { s with ready := insertByPriority t s.ready }
    (false, if s.running.isNone then queued.advance else queued)

/-- `complete`: the task that is done, if it is the running one. -/
def TaskScheduler.complete (s : TaskScheduler) (id : Nat) : Option Task × TaskScheduler :=
  match s.running with
  | some r => if r.id = id then (some r, TaskScheduler.advance ⟨none, s.ready⟩) else (none, s)
  | none => (none, s)

/-! ## Sequences of calls

Calls may submit anything and complete anything, in any order and with any ids. -/

inductive Call
  | submit (t : Task)
  | complete (id : Nat)
  deriving DecidableEq, Repr

def TaskScheduler.call (s : TaskScheduler) : Call → TaskScheduler
  | .submit t => (s.submit t).2
  | .complete id => (s.complete id).2

/-- The scheduler after the calls, newest first. -/
def after : List Call → TaskScheduler
  | [] => {}
  | c :: calls => (after calls).call c

/-- The tasks submitted, newest first. -/
def submitted : List Call → List Task
  | [] => []
  | .submit t :: calls => t :: submitted calls
  | .complete _ :: calls => submitted calls

/-- The tasks that `complete` has returned, newest first. -/
def completed : List Call → List Task
  | [] => []
  | .submit _ :: calls => completed calls
  | .complete id :: calls => ((after calls).complete id).1.toList ++ completed calls

/-- The submitted tasks that are not completed. -/
def unfinished (calls : List Call) : Multiset Task :=
  (submitted calls : Multiset Task) - (completed calls : Multiset Task)

/-! ## What a call does

The cases of the two calls, for a scheduler that is not idle with a full queue. The proofs go by
these and not by the definitions. -/

theorem insertByPriority_perm (t : Task) (ready : List Task) :
    (insertByPriority t ready).Perm (t :: ready) := by
  refine List.perm_middle.trans (List.Perm.cons t ?_)
  rw [List.takeWhile_append_dropWhile]

@[simp] theorem insertByPriority_nil (t : Task) : insertByPriority t [] = [t] := rfl

@[simp] theorem advance_nil (r : Option Task) : TaskScheduler.advance ⟨r, []⟩ = ⟨r, []⟩ := rfl

@[simp] theorem advance_cons (r : Option Task) (t : Task) (ready : List Task) :
    TaskScheduler.advance ⟨r, t :: ready⟩ = ⟨some t, ready⟩ := rfl

/-- **The three ends of `submit`** for a scheduler that queues nothing while it
is idle: the task preempts, starts at once, or waits. -/
theorem submit_cases {s : TaskScheduler} (hidle : s.running = none → s.ready = []) (t : Task) :
    (∃ r, s.running = some r ∧ r.priority < t.priority ∧ r.preemptible = true ∧
      s.submit t = (true, ⟨some t, r :: s.ready⟩)) ∨
    (s = ⟨none, []⟩ ∧ s.submit t = (false, ⟨some t, []⟩)) ∨
    (∃ r, s.running = some r ∧ (r.preemptible = true → t.priority ≤ r.priority) ∧
      s.submit t = (false, ⟨some r, insertByPriority t s.ready⟩)) := by
  obtain ⟨running, ready⟩ := s
  cases running with
  | none =>
    obtain rfl : ready = [] := hidle rfl
    exact .inr (.inl ⟨rfl, rfl⟩)
  | some r =>
    by_cases hp : TaskScheduler.Preempts ⟨some r, ready⟩ t
    · obtain ⟨r', hr', hlt, hpre⟩ := hp
      obtain rfl := Option.some.inj hr'
      refine .inl ⟨r, rfl, hlt, hpre, ?_⟩
      exact if_pos ⟨r, rfl, hlt, hpre⟩
    · refine .inr (.inr ⟨r, rfl, fun hpre => ?_, if_neg hp⟩)
      exact not_lt.mp fun hlt => hp ⟨r, rfl, hlt, hpre⟩

/-- **The two ends of `complete`**: the running task is done and the front of the queue takes its
place, or the call is ignored. The id of a task that is queued is no id to complete. -/
theorem complete_cases (s : TaskScheduler) (id : Nat) :
    (∃ r, s.running = some r ∧ r.id = id ∧
      s.complete id = (some r, TaskScheduler.advance ⟨none, s.ready⟩)) ∨
    ((∀ r ∈ s.running, r.id ≠ id) ∧ s.complete id = (none, s)) := by
  obtain ⟨running, ready⟩ := s
  cases running with
  | none => exact .inr ⟨by simp, rfl⟩
  | some r =>
    by_cases hid : r.id = id
    · exact .inl ⟨r, rfl, hid, if_pos hid⟩
    · refine .inr ⟨fun r' hr' => ?_, if_neg hid⟩
      obtain rfl := Option.some.inj hr'
      exact hid

/-! ## The invariant

The queue is sorted because a task is inserted behind those as urgent, and because what is put
back in front is at least as urgent as all of them. -/

/-- The list is sorted by non-increasing priority. -/
def Sorted (ready : List Task) : Prop := ready.Pairwise fun a b => b.priority ≤ a.priority

structure Ordered (s : TaskScheduler) : Prop where
  sorted : Sorted s.ready
  /-- an idle scheduler has nothing to do -/
  idle : s.running = none → s.ready = []
  /-- what may be preempted is at least as urgent as what waits -/
  urgent : ∀ r ∈ s.running, r.preemptible = true → ∀ q ∈ s.ready, q.priority ≤ r.priority

/-- The tasks of a sorted queue behind the insertion point are less urgent. -/
theorem lt_of_mem_dropWhile {p : Int} {q : Task} {ready : List Task} (h : Sorted ready)
    (hq : q ∈ ready.dropWhile fun a => p ≤ a.priority) : q.priority < p := by
  induction ready with
  | nil => cases hq
  | cons a ready ih =>
    rw [List.dropWhile_cons] at hq
    split at hq
    · exact ih h.of_cons hq
    · next ha =>
      have hap : a.priority < p := by simpa using ha
      obtain rfl | hmem := List.mem_cons.mp hq
      · exact hap
      · exact (List.rel_of_pairwise_cons h hmem).trans_lt hap

/-- The tasks before the insertion point are as urgent. -/
theorem le_of_mem_takeWhile {p : Int} {q : Task} {ready : List Task}
    (hq : q ∈ ready.takeWhile fun a => p ≤ a.priority) : p ≤ q.priority := by
  simpa using List.mem_takeWhile_imp hq

theorem Sorted.insertByPriority {ready : List Task} (h : Sorted ready) (t : Task) :
    Sorted (insertByPriority t ready) := by
  refine List.pairwise_append.mpr ⟨h.sublist (List.takeWhile_sublist _),
    List.pairwise_cons.mpr ⟨fun q hq => ?_, h.sublist (List.dropWhile_sublist _)⟩,
    fun a ha b hb => ?_⟩
  · exact (lt_of_mem_dropWhile h hq).le
  · obtain rfl | hb := List.mem_cons.mp hb
    · exact le_of_mem_takeWhile ha
    · exact (lt_of_mem_dropWhile h hb).le.trans (le_of_mem_takeWhile ha)

theorem ordered_init : Ordered {} := ⟨.nil, fun _ => rfl, nofun⟩

/-- The head of a sorted queue may run. -/
theorem ordered_advance {ready : List Task} (h : Sorted ready) :
    Ordered (TaskScheduler.advance ⟨none, ready⟩) := by
  cases ready with
  | nil => exact ordered_init
  | cons t ready =>
    refine ⟨h.of_cons, nofun, fun r hr _ q hq => ?_⟩
    obtain rfl := Option.some.inj hr
    exact List.rel_of_pairwise_cons h hq

/-- By the three ends of `submit`. A task that is preempted goes to the front, and it may: it
ran, so it is at least as urgent as the queue. -/
theorem Ordered.submit {s : TaskScheduler} (h : Ordered s) (t : Task) : Ordered (s.submit t).2 := by
  obtain ⟨r, hr, hlt, hpre, heq⟩ | ⟨-, heq⟩ | ⟨r, hr, hle, heq⟩ := submit_cases h.idle t <;> rw [heq]
  · -- the preempted task is the most urgent one that waits
    have hurgent := h.urgent r hr hpre
    refine ⟨List.pairwise_cons.mpr ⟨hurgent, h.sorted⟩, nofun, ?_⟩
    rintro t' ht' - q hq
    obtain rfl := Option.some.inj ht'
    obtain rfl | hq := List.mem_cons.mp hq
    · exact hlt.le
    · exact (hurgent q hq).trans hlt.le
  · exact ⟨.nil, nofun, nofun⟩
  · refine ⟨h.sorted.insertByPriority t, nofun, ?_⟩
    rintro r' hr' hpre q hq
    obtain rfl := Option.some.inj hr'
    obtain rfl | hq := List.mem_cons.mp ((insertByPriority_perm t s.ready).mem_iff.mp hq)
    · exact hle hpre
    · exact h.urgent r hr hpre q hq

/-- The head of the queue is the next to run. -/
theorem Ordered.complete {s : TaskScheduler} (h : Ordered s) (id : Nat) :
    Ordered (s.complete id).2 := by
  obtain ⟨r, -, -, heq⟩ | ⟨-, heq⟩ := complete_cases s id <;> rw [heq]
  · exact ordered_advance h.sorted
  · exact h

theorem ordered_after (calls : List Call) : Ordered (after calls) := by
  induction calls with
  | nil => exact ordered_init
  | cons c calls ih =>
    cases c with
    | submit t => exact ih.submit t
    | complete id => exact ih.complete id

/-! ## No task is lost

Counted with multiplicities, since nothing keeps two tasks from being equal. -/

/-- The tasks that the scheduler holds. -/
def TaskScheduler.held (s : TaskScheduler) : List Task := s.running.toList ++ s.ready

theorem held_advance (ready : List Task) :
    (TaskScheduler.advance ⟨none, ready⟩).held = ready := by
  cases ready <;> rfl

theorem held_submit {s : TaskScheduler} (h : Ordered s) (t : Task) :
    (s.submit t).2.held.Perm (t :: s.held) := by
  obtain ⟨r, hr, -, -, heq⟩ | ⟨rfl, heq⟩ | ⟨r, hr, -, heq⟩ := submit_cases h.idle t <;> rw [heq]
  · simp [TaskScheduler.held, hr]
  · exact .refl _
  · simpa [TaskScheduler.held, hr] using
      ((insertByPriority_perm t s.ready).cons r).trans (.swap t r s.ready)

/-- A completed task leaves the scheduler, and no other. -/
theorem held_complete (s : TaskScheduler) (id : Nat) :
    s.held = (s.complete id).1.toList ++ (s.complete id).2.held := by
  obtain ⟨r, hr, -, heq⟩ | ⟨-, heq⟩ := complete_cases s id <;> rw [heq]
  · rw [held_advance, TaskScheduler.held, hr]
  · rfl

/-- Every submitted task is completed or held. -/
theorem submitted_perm (calls : List Call) :
    (submitted calls).Perm (completed calls ++ (after calls).held) := by
  induction calls with
  | nil => exact .refl _
  | cons c calls ih =>
    cases c with
    | submit t =>
      have hheld := held_submit (ordered_after calls) t
      exact (ih.cons t).trans (List.perm_middle.symm.trans (hheld.symm.append_left _))
    | complete id =>
      have hheld := held_complete (after calls) id
      apply ih.trans
      rw [hheld, ← List.append_assoc, completed]
      exact List.perm_append_comm.append_right _

/-- What is unfinished is what the scheduler holds. -/
theorem unfinished_eq (calls : List Call) :
    unfinished calls = ((after calls).held : Multiset Task) := by
  have hperm : (submitted calls : Multiset Task) = completed calls + (after calls).held :=
    (Multiset.coe_eq_coe.mpr (submitted_perm calls)).trans (Multiset.coe_add _ _).symm
  rw [unfinished, hperm, Multiset.add_comm, Multiset.add_sub_cancel_right]

theorem running_isSome_iff (calls : List Call) :
    (after calls).running.isSome ↔ unfinished calls ≠ 0 := by
  rw [unfinished_eq, Ne, Multiset.coe_eq_zero]
  cases hr : (after calls).running with
  | none => simp [TaskScheduler.held, hr, (ordered_after calls).idle hr]
  | some r => simp [TaskScheduler.held, hr]

/-! ## Tasks that cannot be preempted

A task that runs and cannot be preempted is replaced by its own completion only. -/

/-- A call other than its own completion leaves such a task running. -/
theorem call_running_of_not_preemptible {s : TaskScheduler} (h : Ordered s) {r : Task}
    (hr : s.running = some r) (hpre : r.preemptible = false) {c : Call} (hc : c ≠ .complete r.id) :
    (s.call c).running = some r := by
  cases c with
  | submit t =>
    obtain ⟨r', hr', -, hpre', -⟩ | ⟨rfl, -⟩ | ⟨r', hr', -, heq⟩ := submit_cases h.idle t
    · obtain rfl := Option.some.inj (hr.symm.trans hr')
      rw [hpre] at hpre'
      cases hpre'
    · cases hr
    · rw [TaskScheduler.call, heq, ← hr', hr]
  | complete id =>
    obtain ⟨r', hr', rfl, -⟩ | ⟨-, heq⟩ := complete_cases s id
    · obtain rfl := Option.some.inj (hr.symm.trans hr')
      exact absurd rfl hc
    · rw [TaskScheduler.call, heq, hr]

theorem running_of_not_preemptible {calls : List Call} {r : Task}
    (hr : (after calls).running = some r) (hpre : r.preemptible = false) {new : List Call}
    (hnew : Call.complete r.id ∉ new) : (after (new ++ calls)).running = some r := by
  induction new with
  | nil => exact hr
  | cons c new ih =>
    have hc : c ≠ .complete r.id := fun heq => hnew (heq ▸ List.mem_cons_self ..)
    have hrest := ih fun hmem => hnew (List.mem_cons_of_mem c hmem)
    exact call_running_of_not_preemptible (ordered_after _) hrest hpre hc

/-- **The state of the scheduler**, after any calls with any ids and priorities:
the queue is sorted, something runs exactly while something is unfinished, what
may be preempted is never less urgent than what waits, what may not is replaced
by its own completion only, and no task is lost or duplicated. -/
theorem scheduler_state (calls : List Call) :
    (after calls).ready.Pairwise (fun a b => b.priority ≤ a.priority) ∧
      ((after calls).running.isSome ↔ unfinished calls ≠ 0) ∧
      (∀ r ∈ (after calls).running, r.preemptible = true →
        ∀ q ∈ (after calls).ready, q.priority ≤ r.priority) ∧
      (∀ r ∈ (after calls).running, r.preemptible = false →
        ∀ new, Call.complete r.id ∉ new → (after (new ++ calls)).running = some r) ∧
      (submitted calls : Multiset Task) =
        completed calls + (after calls).running.toList + (after calls).ready := by
  have hordered := ordered_after calls
  refine ⟨hordered.sorted, running_isSome_iff calls, hordered.urgent,
    fun r hr hpre new hnew => running_of_not_preemptible hr hpre hnew, ?_⟩
  rw [Multiset.add_assoc, Multiset.coe_add, Multiset.coe_add]
  exact Multiset.coe_eq_coe.mpr (submitted_perm calls)

end AmrFramework.Scheduling
