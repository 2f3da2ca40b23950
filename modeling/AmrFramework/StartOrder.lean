import Mathlib.Data.List.Dedup
import AmrFramework.Runs
import AmrFramework.TaskScheduler

/-!
# The order in which tasks start and resume

A task is dispatched when it runs after a call and did not run before it; its
first dispatch is its start, every later one a resumption. The log of the
dispatches (newest first) is read off the running task alone, so nothing here
depends on how the scheduler is written.

* `Effect` says once what a call does to the scheduler and to the log;
* `Fair` is the invariant: among the tasks held, one that has run already stands
  behind *strictly* more urgent ones only, and the submissions of a priority are
  its starts followed by what waits for a start, in the order of the queue.
-/

namespace AmrFramework.Scheduling

open Runs

/-- The tasks that started or resumed, newest first. -/
def dispatches : List Call → List Task
  | [] => []
  | c :: calls =>
    if (after (c :: calls)).running = (after calls).running then dispatches calls
    else (after (c :: calls)).running.toList ++ dispatches calls

/-- The tasks that started, newest first: their oldest dispatches. -/
def starts (calls : List Call) : List Task := (dispatches calls).dedup

/-- No two submitted tasks have the same id. -/
def DistinctIds (calls : List Call) : Prop := ((submitted calls).map Task.id).Nodup

instance (calls : List Call) : Decidable (DistinctIds calls) :=
  inferInstanceAs (Decidable (List.Nodup _))

/-- The task has run, is not completed, and does not run. -/
def Preempted (calls : List Call) (p : Task) : Prop :=
  p ∈ dispatches calls ∧ p ∈ unfinished calls ∧ (after calls).running ≠ some p

instance (calls : List Call) (p : Task) : Decidable (Preempted calls p) :=
  inferInstanceAs (Decidable (_ ∧ _))

/-! ## What a call does to the log

A call starts a task, queues it, preempts one, or completes one; what it adds to the log is at
most the task that runs afterwards. -/

theorem DistinctIds.nodup {calls : List Call} (h : DistinctIds calls) : (submitted calls).Nodup :=
  List.Nodup.of_map _ h

/-- Fewer calls submit fewer tasks. -/
theorem submitted_append (new old : List Call) : ∃ ts, submitted (new ++ old) = ts ++ submitted old := by
  induction new with
  | nil => exact ⟨[], rfl⟩
  | cons c new ih =>
    obtain ⟨ts, hts⟩ := ih
    cases c with
    | submit t => exact ⟨t :: ts, congrArg (t :: ·) hts⟩
    | complete id => exact ⟨ts, hts⟩

theorem DistinctIds.of_append {new old : List Call} (h : DistinctIds (new ++ old)) :
    DistinctIds old := by
  obtain ⟨ts, hts⟩ := submitted_append new old
  rw [DistinctIds, hts, List.map_append] at h
  exact (List.nodup_append.mp h).2.1

theorem DistinctIds.tail {c : Call} {calls : List Call} (h : DistinctIds (c :: calls)) :
    DistinctIds calls :=
  DistinctIds.of_append (show DistinctIds ([c] ++ calls) from h)

/-- A task that is submitted now was not submitted before. -/
theorem DistinctIds.fresh {t : Task} {calls : List Call} (h : DistinctIds (.submit t :: calls)) :
    t ∉ submitted calls :=
  (List.nodup_cons.mp h.nodup).1

/-- The scheduler holds no task twice. -/
theorem DistinctIds.held_nodup {calls : List Call} (h : DistinctIds calls) :
    (after calls).held.Nodup :=
  ((submitted_perm calls).nodup_iff.mp h.nodup).of_append_right

theorem held_subset_submitted {calls : List Call} {q : Task} (hq : q ∈ (after calls).held) :
    q ∈ submitted calls :=
  (submitted_perm calls).mem_iff.mpr (List.mem_append_right _ hq)

/-- The ends of a call, with what each adds to the log `log` of dispatches. A call dispatches one
task at most, the one that runs afterwards. -/
inductive Effect (s : TaskScheduler) (log : List Task) : Call → TaskScheduler → List Task → Prop
  /-- a task more urgent than everything held starts at once -/
  | start {t : Task} : (∀ q ∈ s.held, q.priority < t.priority) →
      Effect s log (.submit t) ⟨some t, s.held⟩ (t :: log)
  | queue {t : Task} : s.running ≠ none →
      Effect s log (.submit t) ⟨s.running, insertByPriority t s.ready⟩ log
  /-- the running task is done, and the front of the queue runs -/
  | next {r n : Task} {ready : List Task} : s = ⟨some r, n :: ready⟩ →
      Effect s log (.complete r.id) ⟨some n, ready⟩ (n :: log)
  | finish {r : Task} : s = ⟨some r, []⟩ → Effect s log (.complete r.id) ⟨none, []⟩ log
  | ignored {id : Nat} : Effect s log (.complete id) s log

/-- The log after a call that changes the running task. -/
theorem dispatches_cons_of_ne {c : Call} {calls : List Call} {t : Task}
    (h : (after (c :: calls)).running = some t) (hne : (after calls).running ≠ some t) :
    dispatches (c :: calls) = t :: dispatches calls := by
  rw [dispatches, h]
  exact if_neg (Ne.symm hne)

/-- The log after a call that leaves the running task. -/
theorem dispatches_cons_of_eq {c : Call} {calls : List Call}
    (h : (after (c :: calls)).running = (after calls).running) :
    dispatches (c :: calls) = dispatches calls :=
  if_pos h

theorem dispatches_cons_of_none {c : Call} {calls : List Call}
    (h : (after (c :: calls)).running = none) : dispatches (c :: calls) = dispatches calls := by
  rw [dispatches, h]
  split <;> rfl

theorem effect {c : Call} {calls : List Call} (hids : DistinctIds (c :: calls)) :
    Effect (after calls) (dispatches calls) c (after (c :: calls)) (dispatches (c :: calls)) := by
  have hordered := ordered_after calls
  cases c with
  | submit t =>
    have hne : (after calls).running ≠ some t := fun hr =>
      hids.fresh (held_subset_submitted (by simp [TaskScheduler.held, hr]))
    obtain ⟨r, hr, hlt, hpre, heq⟩ | ⟨hs, heq⟩ | ⟨r, hr, -, heq⟩ := submit_cases hordered.idle t
    · have hafter : after (.submit t :: calls) = ⟨some t, (after calls).held⟩ := by
        rw [TaskScheduler.held, hr]
        exact congrArg Prod.snd heq
      rw [dispatches_cons_of_ne (congrArg TaskScheduler.running hafter) hne, hafter]
      refine .start fun q hq => ?_
      rw [TaskScheduler.held, hr] at hq
      obtain rfl | hq := List.mem_cons.mp hq
      · exact hlt
      · exact (hordered.urgent r hr hpre q hq).trans_lt hlt
    · have hheld : (after calls).held = [] := by rw [hs]; rfl
      have hafter : after (.submit t :: calls) = ⟨some t, (after calls).held⟩ := by
        rw [hheld]
        exact congrArg Prod.snd heq
      rw [dispatches_cons_of_ne (congrArg TaskScheduler.running hafter) hne, hafter]
      refine .start fun q hq => ?_
      rw [hheld] at hq
      cases hq
    · have hafter : after (.submit t :: calls) =
          ⟨(after calls).running, insertByPriority t (after calls).ready⟩ := by
        rw [hr]
        exact congrArg Prod.snd heq
      have hsame : (after (.submit t :: calls)).running = (after calls).running := by rw [hafter]
      rw [dispatches_cons_of_eq hsame, hafter]
      exact .queue (by rw [hr]; exact Option.some_ne_none r)
  | complete id =>
    obtain ⟨r, hr, rfl, heq⟩ | ⟨-, heq⟩ := complete_cases (after calls) id
    · have hafter : after (.complete r.id :: calls) =
          TaskScheduler.advance ⟨none, (after calls).ready⟩ := congrArg Prod.snd heq
      have hnodup := hids.tail.held_nodup
      rw [TaskScheduler.held, hr] at hnodup
      cases hready : (after calls).ready with
      | nil =>
        rw [hready, advance_nil] at hafter
        rw [dispatches_cons_of_none (congrArg TaskScheduler.running hafter), hafter]
        refine .finish ?_
        rw [← hr, ← hready]
      | cons n ready =>
        rw [hready] at hafter hnodup
        rw [advance_cons] at hafter
        have hne : (after calls).running ≠ some n := fun heq => by
          obtain rfl := Option.some.inj (hr.symm.trans heq)
          exact (List.nodup_cons.mp hnodup).1 (List.mem_cons_self ..)
        rw [dispatches_cons_of_ne (congrArg TaskScheduler.running hafter) hne, hafter]
        refine .next ?_
        rw [← hr, ← hready]
    · have hafter : after (.complete id :: calls) = after calls := congrArg Prod.snd heq
      rw [dispatches_cons_of_eq (congrArg TaskScheduler.running hafter), hafter]
      exact .ignored

/-! ## The invariant

A preempted task goes to the front of the queue, and whatever is submitted later goes behind its
equals. So nothing of its own priority gets ahead of a task that has run, and only strictly more
urgent tasks stand before it. -/

/-- The tasks of priority `k`. -/
def ofPriority (k : Int) (ts : List Task) : List Task := ts.filter fun t => t.priority = k

/-- The tasks of priority `k` that wait for their start. -/
def notStarted (k : Int) (log ts : List Task) : List Task :=
  ts.filter fun t => t.priority = k ∧ t ∉ log

/-- What holds of the scheduler `s`, the log of the dispatches and the submissions after the
calls, when the ids are distinct. -/
structure Fair (s : TaskScheduler) (log subs : List Task) : Prop where
  ran : ∀ r ∈ s.running, r ∈ log
  log_subset : ∀ t ∈ log, t ∈ subs
  held_subset : ∀ q ∈ s.held, q ∈ subs
  /-- only strictly more urgent tasks stand before one that has run -/
  above : s.held.Pairwise fun a b => b ∈ log → b.priority < a.priority
  /-- tasks of one priority start in the order of their submission -/
  order : ∀ k, ofPriority k subs = (notStarted k log s.ready).reverse ++ ofPriority k log.dedup

variable {s s' : TaskScheduler} {log log' subs : List Task}

/-- Of the tasks held, the running one does not wait for its start. -/
theorem Fair.notStarted_held (h : Fair s log subs) (k : Int) :
    notStarted k log s.held = notStarted k log s.ready := by
  cases hr : s.running with
  | none => simp [TaskScheduler.held, hr]
  | some r => simp [TaskScheduler.held, notStarted, hr, h.ran r hr]

/-- A task that starts ahead of everything held. -/
theorem Fair.start (h : Fair s log subs) {t : Task} (hfresh : t ∉ subs)
    (htop : ∀ q ∈ s.held, q.priority < t.priority) :
    Fair ⟨some t, s.held⟩ (t :: log) (t :: subs) := by
  have hlog : t ∉ log := fun hmem => hfresh (h.log_subset t hmem)
  have hne : ∀ q ∈ s.held, q ≠ t := fun q hq heq => hfresh (heq ▸ h.held_subset q hq)
  have hsame : ∀ k, notStarted k (t :: log) s.held = notStarted k log s.ready := fun k => by
    rw [← h.notStarted_held k]
    refine List.filter_congr fun q hq => ?_
    simp [hne q hq]
  refine ⟨?_, ?_, ?_, ?_, fun k => ?_⟩
  · intro r hr
    obtain rfl := Option.some.inj hr
    exact List.mem_cons_self ..
  · exact fun q hq => (List.mem_cons.mp hq).elim (fun heq => heq ▸ List.mem_cons_self ..)
      fun hmem => List.mem_cons_of_mem _ (h.log_subset q hmem)
  · exact fun q hq => (List.mem_cons.mp hq).elim (fun heq => heq ▸ List.mem_cons_self ..)
      fun hmem => List.mem_cons_of_mem _ (h.held_subset q hmem)
  · refine List.pairwise_cons.mpr ⟨fun q hq _ => htop q hq, ?_⟩
    refine h.above.imp_of_mem fun {a b} _ hb hab hmem => ?_
    exact hab ((List.mem_cons.mp hmem).resolve_left (hne b hb))
  · rw [hsame, List.dedup_cons_of_notMem hlog]
    by_cases hk : t.priority = k
    · -- nothing of its own priority waits
      have hnone : notStarted k log s.ready = [] := by
        rw [← h.notStarted_held k]
        refine List.filter_eq_nil_iff.mpr fun q hq hqk => ?_
        have hlt := htop q hq
        simp only [decide_eq_true_eq] at hqk
        rw [hqk.1, hk] at hlt
        exact lt_irrefl k hlt
      have horder := h.order k
      rw [hnone] at horder ⊢
      simpa [ofPriority, hk] using horder
    · simpa [ofPriority, hk] using h.order k

/-- A task that waits behind its equals. -/
theorem Fair.queue (h : Fair s log subs) (hsorted : Sorted s.ready) {t : Task}
    (hfresh : t ∉ subs) : Fair ⟨s.running, insertByPriority t s.ready⟩ log (t :: subs) := by
  have hlog : t ∉ log := fun hmem => hfresh (h.log_subset t hmem)
  have hsplit : (s.ready.takeWhile fun q => t.priority ≤ q.priority) ++
      (s.ready.dropWhile fun q => t.priority ≤ q.priority) = s.ready :=
    List.takeWhile_append_dropWhile
  refine ⟨h.ran, fun q hq => List.mem_cons_of_mem _ (h.log_subset q hq), fun q hq => ?_, ?_,
    fun k => ?_⟩
  · obtain hq | hq := List.mem_append.mp hq
    · exact List.mem_cons_of_mem _ (h.held_subset q (List.mem_append_left _ hq))
    · obtain rfl | hq := List.mem_cons.mp ((insertByPriority_perm t s.ready).mem_iff.mp hq)
      · exact List.mem_cons_self ..
      · exact List.mem_cons_of_mem _ (h.held_subset q (List.mem_append_right _ hq))
  · have habove := h.above
    rw [TaskScheduler.held, ← hsplit, ← List.append_assoc] at habove
    obtain ⟨hfront, hback, hcross⟩ := List.pairwise_append.mp habove
    rw [TaskScheduler.held, insertByPriority, ← List.append_assoc]
    refine List.pairwise_append.mpr ⟨hfront, List.pairwise_cons.mpr ⟨fun q hq _ => ?_, hback⟩, ?_⟩
    · exact lt_of_mem_dropWhile hsorted hq
    · intro a ha b hb hran
      obtain rfl | hb := List.mem_cons.mp hb
      · exact absurd hran hlog
      · exact hcross a ha b hb hran
  · have horder := h.order k
    rw [notStarted, ← hsplit, List.filter_append] at horder
    by_cases hk : t.priority = k
    · -- nothing of its own priority stands behind the insertion point
      have hnone : notStarted k log (s.ready.dropWhile fun q => t.priority ≤ q.priority) = [] := by
        refine List.filter_eq_nil_iff.mpr fun q hq hqk => ?_
        have hlt := lt_of_mem_dropWhile hsorted hq
        simp only [decide_eq_true_eq] at hqk
        rw [hqk.1, hk] at hlt
        exact lt_irrefl k hlt
      rw [notStarted] at hnone
      rw [hnone, List.append_nil] at horder
      have hfilter : notStarted k log (insertByPriority t s.ready) =
          (s.ready.takeWhile fun q => t.priority ≤ q.priority).filter
            (fun q => q.priority = k ∧ q ∉ log) ++ [t] := by
        rw [notStarted, insertByPriority, List.filter_append,
          List.filter_cons_of_pos (by simp [hk, hlog]), hnone]
      rw [hfilter, List.reverse_append]
      simpa [ofPriority, hk] using horder
    · have hfilter : notStarted k log (insertByPriority t s.ready) =
          (s.ready.takeWhile fun q => t.priority ≤ q.priority).filter
            (fun q => q.priority = k ∧ q ∉ log) ++
          (s.ready.dropWhile fun q => t.priority ≤ q.priority).filter
            (fun q => q.priority = k ∧ q ∉ log) := by
        rw [notStarted, insertByPriority, List.filter_append,
          List.filter_cons_of_neg (by simp [hk])]
      rw [hfilter]
      simpa [ofPriority, hk] using horder

/-- The running task leaves, and the front of the queue starts or resumes. -/
theorem Fair.next {r n : Task} {ready : List Task} (h : Fair ⟨some r, n :: ready⟩ log subs)
    (hnodup : n ∉ ready) : Fair ⟨some n, ready⟩ (n :: log) subs := by
  have hne : ∀ q ∈ ready, q ≠ n := fun q hq heq => hnodup (heq ▸ hq)
  have hsame : ∀ k, notStarted k (n :: log) ready = notStarted k log ready := fun k => by
    refine List.filter_congr fun q hq => ?_
    simp [hne q hq]
  have hheld : ∀ q ∈ n :: ready, q ∈ subs := fun q hq =>
    h.held_subset q (List.mem_cons_of_mem _ hq)
  refine ⟨?_, ?_, hheld, ?_, fun k => ?_⟩
  · intro r' hr'
    obtain rfl := Option.some.inj hr'
    exact List.mem_cons_self ..
  · intro q hq
    obtain rfl | hq := List.mem_cons.mp hq
    · exact hheld q (List.mem_cons_self ..)
    · exact h.log_subset q hq
  · have habove : (n :: ready).Pairwise fun a b => b ∈ log → b.priority < a.priority :=
      List.Pairwise.of_cons h.above
    obtain ⟨hhead, htail⟩ := List.pairwise_cons.mp habove
    refine List.pairwise_cons.mpr ⟨fun q hq hmem => ?_, htail.imp_of_mem fun {a b} _ hb hab hmem => ?_⟩
    · exact hhead q hq ((List.mem_cons.mp hmem).resolve_left (hne q hq))
    · exact hab ((List.mem_cons.mp hmem).resolve_left (hne b hb))
  · rw [hsame]
    have horder := h.order k
    by_cases hmem : n ∈ log
    · rw [List.dedup_cons_of_mem hmem]
      simpa [notStarted, hmem] using horder
    · rw [List.dedup_cons_of_notMem hmem]
      by_cases hk : n.priority = k
      · simpa [notStarted, ofPriority, hmem, hk] using horder
      · simpa [notStarted, ofPriority, hk] using horder

theorem fair {calls : List Call} (hids : DistinctIds calls) :
    Fair (after calls) (dispatches calls) (submitted calls) := by
  induction calls with
  | nil => exact ⟨nofun, nofun, nofun, .nil, fun _ => rfl⟩
  | cons c calls ih =>
    have hfair := ih hids.tail
    have hsorted := (ordered_after calls).sorted
    have hnodup := hids.tail.held_nodup
    have heffect := effect hids
    generalize after (c :: calls) = s', dispatches (c :: calls) = log' at heffect ⊢
    generalize after calls = s, dispatches calls = log at heffect hfair hsorted hnodup
    cases heffect with
    | start htop => exact hfair.start hids.fresh htop
    | queue => exact hfair.queue hsorted hids.fresh
    | next hs =>
      obtain rfl := hs
      exact hfair.next (List.nodup_cons.mp (List.nodup_cons.mp hnodup).2).1
    | finish hs =>
      obtain rfl := hs
      exact ⟨nofun, hfair.log_subset, nofun, .nil, hfair.order⟩
    | ignored => exact hfair

/-! ## Preempted tasks

From the moment a task is preempted, what is dispatched is the task itself or something more
urgent. This is followed call by call, until the task runs again or the calls end. -/

theorem preempted_iff {calls : List Call} (hids : DistinctIds calls) (p : Task) :
    Preempted calls p ↔ p ∈ dispatches calls ∧ p ∈ (after calls).ready := by
  rw [Preempted, unfinished_eq, Multiset.mem_coe]
  have hnodup := hids.held_nodup
  cases hr : (after calls).running with
  | none => simp [TaskScheduler.held, hr]
  | some r =>
    rw [TaskScheduler.held, hr] at hnodup ⊢
    have hr_notMem : r ∉ (after calls).ready := (List.nodup_cons.mp hnodup).1
    refine and_congr_right fun _ => ?_
    constructor
    · rintro ⟨hmem, hne⟩
      exact (List.mem_cons.mp hmem).resolve_left fun heq => hne (heq ▸ rfl)
    · intro hmem
      refine ⟨List.mem_cons_of_mem _ hmem, fun heq => hr_notMem ?_⟩
      rwa [Option.some.inj heq]

/-- **What a call does while a task is preempted**: it dispatches nothing, it
resumes the task, or it dispatches a strictly more urgent one. -/
theorem preempted_step {c : Call} {calls : List Call} (hids : DistinctIds (c :: calls)) {p : Task}
    (hp : Preempted calls p) :
    (dispatches (c :: calls) = p :: dispatches calls) ∨
      (Preempted (c :: calls) p ∧ (dispatches (c :: calls) = dispatches calls ∨
        ∃ u, p.priority < u.priority ∧ dispatches (c :: calls) = u :: dispatches calls)) := by
  rw [preempted_iff hids]
  obtain ⟨hran, hready⟩ := (preempted_iff hids.tail p).mp hp
  have hfair := fair hids.tail
  have heffect := effect hids
  generalize after (c :: calls) = s', dispatches (c :: calls) = log' at heffect ⊢
  generalize after calls = s, dispatches calls = log at heffect hfair hran hready
  cases heffect with
  | start htop =>
    have hheld : p ∈ s.held := List.mem_append_right _ hready
    exact .inr ⟨⟨List.mem_cons_of_mem _ hran, hheld⟩, .inr ⟨_, htop p hheld, rfl⟩⟩
  | queue =>
    refine .inr ⟨⟨hran, ?_⟩, .inl rfl⟩
    exact (insertByPriority_perm ..).mem_iff.mpr (List.mem_cons_of_mem _ hready)
  | @next r n ready hs =>
    obtain rfl := hs
    obtain rfl | hmem := List.mem_cons.mp hready
    · exact .inl rfl
    · have habove := (List.pairwise_cons.mp (List.pairwise_cons.mp hfair.above).2).1 p hmem hran
      exact .inr ⟨⟨List.mem_cons_of_mem _ hran, hmem⟩, .inr ⟨n, habove, rfl⟩⟩
  | finish hs =>
    obtain rfl := hs
    cases hready
  | ignored => exact .inr ⟨⟨hran, hready⟩, .inl rfl⟩

/-- The dispatch of `u`, after those in `older`, comes after one of `p`, or is one
of `p`, or is more urgent. -/
def ResumesFirst (p u : Task) (older : List Task) : Prop :=
  p ∈ older ∨ u = p ∨ p.priority < u.priority

/-- The dispatches of more calls, until the task has resumed and after. -/
theorem resumes_first {new old : List Call} (hids : DistinctIds (new ++ old)) {p : Task}
    (hp : Preempted old p) :
    ∃ log, dispatches (new ++ old) = log ++ dispatches old ∧ Always (ResumesFirst p) log ∧
      (p ∈ log ∨ Preempted (new ++ old) p) := by
  induction new with
  | nil => exact ⟨[], rfl, trivial, .inr hp⟩
  | cons c new ih =>
    have hids : DistinctIds (c :: (new ++ old)) := hids
    obtain ⟨log, hlog, hfirst, hnow⟩ := ih hids.tail
    obtain hmem | hpre := hnow
    · -- it has resumed: what follows is free
      rw [List.cons_append, dispatches, hlog]
      split
      · exact ⟨log, rfl, hfirst, .inl hmem⟩
      · cases (after (c :: (new ++ old))).running with
        | none => exact ⟨log, rfl, hfirst, .inl hmem⟩
        | some u => exact ⟨u :: log, rfl, ⟨.inl hmem, hfirst⟩, .inl (List.mem_cons_of_mem u hmem)⟩
    · obtain hres | ⟨hpre', hsame | ⟨u, hlt, hu⟩⟩ := preempted_step hids hpre
      · exact ⟨p :: log, by rw [List.cons_append, hres, hlog]; rfl, ⟨.inr (.inl rfl), hfirst⟩,
          .inl (List.mem_cons_self ..)⟩
      · exact ⟨log, by rw [List.cons_append, hsame, hlog], hfirst, .inr hpre'⟩
      · exact ⟨u :: log, by rw [List.cons_append, hu, hlog]; rfl, ⟨.inr (.inr hlt), hfirst⟩,
          .inr hpre'⟩

/-- **The order of starts and resumptions**, when the ids are distinct: the
starts of each priority are, oldest first, the first submissions of that
priority, and in the log of the dispatches since a task was preempted every
other task of its priority or a lower one comes after the task itself. -/
theorem start_order (calls : List Call) (hids : DistinctIds calls) :
    (∀ k, (starts calls).reverse.filter (fun t => t.priority = k) <+:
      (submitted calls).reverse.filter (fun t => t.priority = k)) ∧
    (∀ new old, calls = new ++ old → ∀ p, Preempted old p →
      ∀ newer u older, dispatches calls = newer ++ u :: (older ++ dispatches old) →
        u ≠ p → u.priority ≤ p.priority → p ∈ older) := by
  refine ⟨fun k => ?_, ?_⟩
  · rw [List.filter_reverse, List.filter_reverse, List.reverse_prefix]
    exact ⟨_, ((fair hids).order k).symm⟩
  · rintro new old rfl p hp newer u older hdisp hne hle
    obtain ⟨log, hlog, hfirst, -⟩ := resumes_first hids hp
    have hsplit : log = newer ++ u :: older := by
      rw [hlog, ← List.cons_append, ← List.append_assoc] at hdisp
      exact List.append_cancel_right hdisp
    rw [hsplit] at hfirst
    obtain hmem | rfl | hlt := (Always.of_append hfirst).1
    · exact hmem
    · exact absurd rfl hne
    · exact absurd hlt (not_lt.mpr hle)

/-- Tasks of one priority, but for `c`, which preempts `a`. -/
def nestedCalls : List Call :=
  [.complete 2, .complete 1, .submit ⟨4, "d", 5, true⟩, .complete 3, .submit ⟨3, "c", 9, true⟩,
    .submit ⟨2, "b", 5, true⟩, .submit ⟨1, "a", 5, true⟩]

/-- The preempted `a` resumes before `b` starts, and `b` starts before `d`. -/
theorem start_order_nestedCalls :
    (starts nestedCalls).reverse.filter (fun t => t.priority = 5) <+:
      (submitted nestedCalls).reverse.filter (fun t => t.priority = 5) ∧
    ∃ older, dispatches nestedCalls = [⟨4, "d", 5, true⟩] ++
        ⟨2, "b", 5, true⟩ :: (older ++ dispatches (nestedCalls.drop 4)) ∧
      ⟨1, "a", 5, true⟩ ∈ older := by
  have h := start_order nestedCalls (by decide)
  have hlog : dispatches nestedCalls = [⟨4, "d", 5, true⟩] ++
      ⟨2, "b", 5, true⟩ :: ([⟨1, "a", 5, true⟩] ++ dispatches (nestedCalls.drop 4)) := by decide
  refine ⟨h.1 5, _, hlog, ?_⟩
  exact h.2 (nestedCalls.take 4) (nestedCalls.drop 4) (by decide) _ (by decide) _ _ _ hlog
    (by decide) (by decide)

end AmrFramework.Scheduling
