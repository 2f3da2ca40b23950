import AmrFramework.SupervisorSteps

/-!
# One process per child

Two invariants of the supervisor's processes:

* `Procs.Owned` — a child with a process is in a live phase, a spawn finds no
  process on record, and the log and the record agree on which processes there
  are. It holds in every run as long as no backoff is over at once
  (`process_owned`): a spawn executed from `enter_backoff` leaves its process
  under a child in `backoff` (`process_unowned`).
* `Procs.Attended` — a child in a live phase has a process. Every supervision
  step keeps it, whatever the policy, but a teardown does not
  (`live_attended`, `live_unattended`).

A teardown leaves no process, and none is started before the next activation
(`none_orphaned`).
-/

namespace AmrFramework.Monitoring

open DependencyOrder Runs

variable {r : Roster} {env : Env} {s s' : Procs} {n : String}

/-! ## The backoff

`feed` executes a spawn at once if it is due, and one after a backoff that is not positive is due
when it is computed. Whether that can happen is a question about the policy alone, and
`Unhurried` answers it: the base must be positive, and so must the cap as soon as there is a
second restart for it to apply to. -/

/-- A policy whose backoff is never over at once. A policy that allows no restart is one for want
of backoffs. -/
def RestartPolicy.Unhurried (p : RestartPolicy) : Prop :=
  p.maxRestarts ≤ 0 ∨ (0 < p.backoffBaseNs ∧ (p.maxRestarts ≤ 1 ∨ 0 < p.backoffMaxNs))

instance (p : RestartPolicy) : Decidable p.Unhurried :=
  inferInstanceAs (Decidable (_ ∨ _))

theorem backoffLoop_pos {p : RestartPolicy} (hmax : 0 < p.backoffMaxNs) {v : Int} (hv : 0 < v)
    (i : Nat) : 0 < backoffLoop p v i := by
  induction i generalizing v with
  | zero =>
    simp only [backoffLoop]
    split
    · exact hv
    · exact hmax
  | succ i ih =>
    simp only [backoffLoop]
    split
    · exact hmax
    · exact ih (by omega)

/-- **Unhurried means**: every backoff within the budget is positive. The first restart waits for
the base, uncapped, and only from the second one on the cap can make the backoff zero. -/
theorem unhurried_iff (p : RestartPolicy) :
    p.Unhurried ↔ ∀ restarts : Int, 0 ≤ restarts → ¬ restarts + 1 > p.maxRestarts →
      0 < backoffNs p restarts := by
  simp only [backoffNs]
  constructor
  · rintro (hnone | ⟨hbase, hmax⟩) restarts h0 hbudget
    · omega
    · split
      · exact hbase
      · next hstep => exact backoffLoop_pos (hmax.resolve_left (by omega)) hbase _
  · intro h
    by_cases hnone : p.maxRestarts ≤ 0
    · exact Or.inl hnone
    have hbase : 0 < p.backoffBaseNs := by
      have := h 0 (Int.le_refl 0) (by omega)
      simpa using this
    refine Or.inr ⟨hbase, ?_⟩
    by_contra hboth
    rw [not_or, not_le, not_lt] at hboth
    -- the cap is not positive, and the second backoff is the cap
    have hcap := h 1 (by omega) (by omega)
    have hone : ¬ (1 : Int) ≤ 0 := by decide
    rw [if_neg hone, show (1 : Int).toNat = 1 from rfl, backoffLoop, if_pos (by omega)] at hcap
    omega

/-- A roster of unhurried policies. -/
def Roster.Unhurried (r : Roster) : Prop := ∀ n ∈ r.names, (r.policy n).Unhurried

instance (r : Roster) : Decidable r.Unhurried :=
  inferInstanceAs (Decidable (∀ n ∈ r.names, _))

/-! ## Log and record

The log is a history of spawns and ends; the record is the pid that a child holds now. `Booked`
says that the record is what the history leads to, so that a process cannot be forgotten while it
runs, and no second one is started beside it. -/

/-- The processes of `n` that are not known to be gone, according to the log. Pids are dropped
one at a time, so that a pid used twice would be counted twice. -/
def liveProcs (n : String) : List Rec → List Int
  | [] => []
  | .spawnChild m _ _ (some pid) :: l => if m = n then pid :: liveProcs n l else liveProcs n l
  | .gone m pid :: l => if m = n then (liveProcs n l).erase pid else liveProcs n l
  | .killed m pid :: l => if m = n then (liveProcs n l).erase pid else liveProcs n l
  | .spawnChild _ _ _ none :: l | .phase _ _ _ :: l | .completed _ :: l | .status _ :: l =>
    liveProcs n l

/-- The process on record, as a list of one or none, to be compared with what the log says. -/
def ProcChild.procs (c : ProcChild) : List Int := if 0 < c.pid then [c.pid] else []

theorem procs_of_nonpos {c : ProcChild} (h : c.pid ≤ 0) : c.procs = [] :=
  if_neg (by omega)

theorem procs_of_pos {c : ProcChild} (h : 0 < c.pid) : c.procs = [c.pid] := if_pos h

/-- The log and the record agree, and no spawn found a process on record. Forgetting and killing
drop the process on record, so the history of each child is a sequence of spawns and ends that
take turns. -/
structure Procs.Booked (s : Procs) : Prop where
  procs : ∀ n, liveProcs n s.log = (s.child n).procs
  spawns : ∀ n recorded deps pid, .spawnChild n recorded deps pid ∈ s.log → recorded ≤ 0

/-- An entry that neither starts nor ends a process. -/
def Rec.Inert : Rec → Prop
  | .phase _ _ _ | .completed _ | .status _ => True
  | .spawnChild _ _ _ _ | .gone _ _ | .killed _ _ => False

namespace Procs.Booked

theorem of_same (h : s.Booked) (hs : s.Same s') : s'.Booked where
  procs n := by
    rw [hs.log, hs.child]
    exact h.procs n
  spawns n recorded deps pid hm := h.spawns n recorded deps pid (hs.log ▸ hm)

/-- Inert entries, and changes of anything but the pids. Changes of phase and marks of completion
are of this kind. -/
theorem of_inert (h : s.Booked) (new : List Rec) (hlog : s'.log = new ++ s.log)
    (hnew : ∀ e ∈ new, e.Inert) (hpid : ∀ n, (s'.child n).pid = (s.child n).pid) :
    s'.Booked where
  procs n := by
    have hlive : liveProcs n (new ++ s.log) = liveProcs n s.log := by
      clear hlog
      induction new with
      | nil => rfl
      | cons e new ih =>
        have he := hnew e (List.mem_cons_self ..)
        have ih := ih fun e he => hnew e (List.mem_cons_of_mem _ he)
        cases e <;> first | exact ih | exact he.elim
    rw [hlog, hlive, h.procs]
    simp only [ProcChild.procs]
    rw [hpid]
  spawns n recorded deps pid hm := by
    rw [hlog] at hm
    obtain hm | hm := List.mem_append.mp hm
    · exact (hnew _ hm).elim
    · exact h.spawns n recorded deps pid hm

theorem setState (h : s.Booked) (n : String) (st : ChildState) : (s.setState n st).Booked := by
  have hpid (m : String) : ((s.setState n st).child m).pid = (s.child m).pid := by
    rw [Procs.setState_child]
    by_cases hm : m = n
    · subst hm
      rw [Function.update_self]
    · rw [Function.update_of_ne hm]
  have hlog := Procs.setState_log s n st
  split at hlog
  · exact h.of_inert [_] hlog
      (fun e he => by rw [List.mem_singleton.mp he]; trivial) hpid
  · exact h.of_inert [] hlog (fun e he => by cases he) hpid

theorem complete (h : s.Booked) (n : String) : (s.complete n).Booked := by
  refine h.of_inert [.completed n] rfl
    (fun e he => by rw [List.mem_singleton.mp he]; trivial) ?_
  intro m
  rw [Procs.complete_child]
  by_cases hm : m = n
  · subst hm
    rw [Function.update_self]
  · rw [Function.update_of_ne hm]

/-- The process of `n` ends, and is dropped from the record. Whether it was collected or killed
makes no difference to the books. -/
theorem drop (h : s.Booked) {n : String} (hpid : 0 < (s.child n).pid) {e : Rec}
    (he : e = .gone n (s.child n).pid ∨ e = .killed n (s.child n).pid)
    (hlog : s'.log = e :: s.log) (hself : (s'.child n).pid ≤ 0)
    (hothers : ∀ m, m ≠ n → (s'.child m).pid = (s.child m).pid) : s'.Booked where
  procs m := by
    have hlive : liveProcs m (e :: s.log) =
        if n = m then (liveProcs m s.log).erase (s.child n).pid else liveProcs m s.log := by
      obtain rfl | rfl := he <;> rfl
    rw [hlog, hlive, h.procs]
    by_cases hm : n = m
    · subst hm
      rw [if_pos rfl, procs_of_pos hpid, procs_of_nonpos hself, List.erase_cons_head]
    · rw [if_neg hm]
      simp only [ProcChild.procs]
      rw [hothers m (Ne.symm hm)]
  spawns m recorded deps pid hm := by
    rw [hlog] at hm
    obtain hm | hm := List.mem_cons.mp hm
    · obtain rfl | rfl := he <;> cases hm
    · exact h.spawns m recorded deps pid hm

theorem forget (h : s.Booked) {n : String} (hpid : 0 < (s.child n).pid) : (s.forget n).Booked := by
  refine h.drop hpid (Or.inl rfl) rfl ?_ ?_
  · rw [Procs.forget_child, Function.update_self]
    exact (by decide : (-1 : Int) ≤ 0)
  · intro m hm
    rw [Procs.forget_child, Function.update_of_ne hm]

theorem kill (h : s.Booked) (n : String) : (s.kill n).Booked := by
  by_cases hpid : (s.child n).pid ≤ 0
  · simp only [Procs.kill]
    rw [if_pos hpid]
    exact h
  · have hlog := Procs.kill_log s n
    rw [if_neg hpid] at hlog
    refine h.drop (by omega) (Or.inr rfl) hlog ?_ ?_
    · rw [Procs.kill_child, Function.update_self]
      exact dropPid_nonpos _
    · intro m hm
      rw [Procs.kill_child, Function.update_of_ne hm]

/-- A spawn that finds no process on record. If it succeeds, its process is the only one of the
child. -/
theorem spawn (h : s.Booked) (r : Roster) {n : String} (hpid : (s.child n).pid ≤ 0)
    {pid : Option Int} (hpos : ∀ p, pid = some p → 0 < p) : (s.spawn r n pid).Booked where
  procs m := by
    rw [Procs.spawn_log, Procs.spawn_child]
    by_cases hm : m = n
    · subst hm
      rw [Function.update_self]
      cases pid with
      | none => exact h.procs m
      | some pid =>
        have hlive : liveProcs m (.spawnChild m (s.child m).pid (depsAllRunning r s m) (some pid) ::
            s.log) = pid :: liveProcs m s.log := if_pos rfl
        rw [hlive, h.procs, procs_of_nonpos hpid]
        exact (procs_of_pos (c := { s.child m with pid := pid }) (hpos pid rfl)).symm
    · rw [Function.update_of_ne hm, ← h.procs m]
      cases pid with
      | none => rfl
      | some pid => exact if_neg (Ne.symm hm)
  spawns m recorded deps new hm := by
    rw [Procs.spawn_log] at hm
    obtain hm | hm := List.mem_cons.mp hm
    · cases hm
      exact hpid
    · exact h.spawns m recorded deps new hm

/-- Distinct dependents give way. By induction on the list; each of them was in the state that
the log was compared with, since they are distinct. -/
theorem yieldAll {child : String → ProcChild} {l : List String} (hl : l.Nodup) {log : List Rec}
    (hlog : ∀ n, liveProcs n log = (child n).procs) (t : String → Int) (n : String) :
    liveProcs n ((l.flatMap fun m => yieldLog m (child m)) ++ log) =
      (if n ∈ l then gaveWay (t n) (child n) else child n).procs := by
  induction l with
  | nil => exact hlog n
  | cons a l ih =>
    obtain ⟨ha, hl⟩ := List.nodup_cons.mp hl
    have ih := ih hl
    rw [List.flatMap_cons, List.append_assoc]
    generalize (l.flatMap fun m => yieldLog m (child m)) ++ log = rest at ih ⊢
    by_cases hn : n = a
    · subst hn
      rw [if_neg ha] at ih
      rw [if_pos (List.mem_cons_self ..)]
      simp only [yieldLog, gaveWay]
      split_ifs with hlive hpid hbackoff
      · exact ih.trans (by rw [procs_of_nonpos hpid, procs_of_nonpos (dropPid_nonpos _)])
      · have herase : liveProcs n ([.killed n (child n).pid] ++ [.phase n (child n).phase .stopped] ++
            rest) = (liveProcs n rest).erase (child n).pid := if_pos rfl
        rw [herase, ih, procs_of_pos (by omega), List.erase_cons_head]
        exact (procs_of_nonpos (dropPid_nonpos _)).symm
      · exact ih
      · exact ih
    · have hskip : liveProcs n (yieldLog a (child a) ++ rest) = liveProcs n rest := by
        simp only [yieldLog]
        split_ifs
        · rfl
        · exact if_neg (Ne.symm hn)
        · rfl
        · rfl
      have hmem : n ∈ a :: l ↔ n ∈ l := by
        rw [List.mem_cons, or_iff_right hn]
      rw [hskip, ih]
      simp only [hmem]

theorem cascaded (h : s.Booked) (hc : Cascaded r n s s') : s'.Booked where
  procs m := by
    obtain ⟨t, ht⟩ := hc.child
    rw [hc.log, ht]
    exact yieldAll (transitiveDependents_nodup r n) h.procs t m
  spawns m recorded deps pid hm := by
    rw [hc.log] at hm
    obtain hm | hm := List.mem_append.mp hm
    · obtain ⟨m', -, hm⟩ := List.mem_flatMap.mp hm
      simp only [yieldLog] at hm
      split_ifs at hm <;> simp at hm
    · exact h.spawns m recorded deps pid hm

end Procs.Booked

/-! ## Ownership

A process under a child that is not live is one that nobody waits for, and the next launch would
start a second one. The invariant therefore ties the pid to the phase. It needs the counters too:
that the backoff step and the number of restarts agree is what makes the next backoff positive. -/

/-- A child whose process, if there is one, has a live phase, and whose
counters agree until the budget is spent. -/
structure ProcChild.Owned (c : ProcChild) : Prop where
  live : 0 < c.pid → c.phase.live = true
  counters : c.phase ≠ .fatal →
    c.state.backoffStep = c.state.restartsInWindow ∧ 0 ≤ c.state.restartsInWindow

/-- The invariant: every child owns its process, and the books are in order. It is kept by
supervision steps and by teardowns, hence by every callback. -/
structure Procs.Owned (s : Procs) : Prop where
  booked : s.Booked
  child : ∀ n, (s.child n).Owned

theorem ProcChild.Owned.gaveWay {c : ProcChild} (h : c.Owned) (t : Int) :
    (gaveWay t c).Owned := by
  simp only [Monitoring.gaveWay]
  split_ifs with hlive hbackoff
  · exact ⟨fun hpid => absurd (dropPid_nonpos c.pid) (Int.not_le.mpr hpid), fun _ =>
      h.counters (Phase.ne_fatal_of_live hlive)⟩
  · exact ⟨fun hpid => absurd (h.live hpid) hlive, fun _ => h.counters (by rw [hbackoff]; decide)⟩
  · exact ⟨h.live, h.counters⟩

/-- One child changes, and the books are in order afterwards. The other children are owned as
they were. -/
theorem Procs.Owned.set (h : s.Owned) (hb : s'.Booked) {c : ProcChild}
    (hchild : s'.child = Function.update s.child n c) (hc : c.Owned) : s'.Owned where
  booked := hb
  child m := by
    rw [hchild]
    by_cases hm : m = n
    · subst hm
      rw [Function.update_self]
      exact hc
    · rw [Function.update_of_ne hm]
      exact h.child m

/-- Under an unhurried policy no fall ends in an immediate respawn. The counters have to agree,
because the budget is counted by one and the backoff computed from the other. -/
theorem RestartPolicy.Unhurried.not_respawns (hp : (r.policy n).Unhurried)
    (hcounters : (s.child n).state.backoffStep = (s.child n).state.restartsInWindow ∧
      0 ≤ (s.child n).state.restartsInWindow) (kind : ActionKind) : ¬ Respawns r s n kind := by
  rintro ⟨-, hbudget, hbackoff⟩
  have hpos := (unhurried_iff _).mp hp _ hcounters.2 hbudget
  rw [hcounters.1] at hbackoff
  omega

/-- **A fall keeps the invariant** under an unhurried policy. If it is to spawn,
the process must be gone already. -/
theorem Falls.owned {kind : ActionKind} (h : Falls r n kind s s') (hp : (r.policy n).Unhurried)
    (hb : s.Booked) (hothers : ∀ m, m ≠ n → (s.child m).Owned)
    (hcounters : (s.child n).state.backoffStep = (s.child n).state.restartsInWindow ∧
      0 ≤ (s.child n).state.restartsInWindow)
    (hpid : kind = .spawn → (s.child n).pid ≤ 0) : s'.Owned := by
  have hdown : s'.Booked ∧ (s'.child n).pid ≤ 0 := by
    cases h with
    | fatal _ _ hc hsame | kill _ _ hc hsame =>
      refine ⟨(((hb.setState n _).cascaded hc).kill n).of_same hsame, ?_⟩
      rw [hsame.child, Procs.kill_child, Function.update_self]
      exact dropPid_nonpos _
    | wait _ _ hc hsame =>
      refine ⟨((hb.setState n _).cascaded hc).of_same hsame, ?_⟩
      rw [hsame.child, hc.child_self, Procs.setState_child, Function.update_self]
      exact hpid rfl
    | respawn _ hbudget hbackoff _ _ _ =>
      exact absurd ⟨rfl, hbudget, hbackoff⟩ (hp.not_respawns hcounters .spawn)
  obtain ⟨t, hstate, -⟩ := h.state
  obtain ⟨t', hchild⟩ := h.others
  refine ⟨hdown.1, ?_⟩
  intro m
  by_cases hm : m = n
  · subst hm
    refine ⟨fun hpos => absurd hdown.2 (Int.not_le.mpr hpos), ?_⟩
    intro hphase
    change (s'.child m).state.phase ≠ .fatal at hphase
    rw [hstate] at hphase ⊢
    by_cases hbudget : (s.child m).state.restartsInWindow + 1 > (r.policy m).maxRestarts
    · rw [enterBackoff_fatal t kind hbudget] at hphase
      exact absurd rfl hphase
    · rw [enterBackoff_backoff t kind hbudget]
      dsimp only
      omega
  · rw [hchild m hm]
    split
    · exact (hothers m hm).gaveWay _
    · exact hothers m hm

/-- An owned child without a live phase has no process: the invariant, read backwards. -/
theorem ProcChild.Owned.pid_nonpos {c : ProcChild} (h : c.Owned) (hlive : c.phase.live = false) :
    c.pid ≤ 0 := by
  by_contra hpid
  have := h.live (by omega)
  rw [hlive] at this
  cases this

/-- Before the budget is spent the counters agree. Afterwards the step is no longer kept, and no
longer needed. -/
theorem Procs.Owned.counters (h : s.Owned) (hphase : (s.child n).phase ≠ .fatal) :
    (s.child n).state.backoffStep = (s.child n).state.restartsInWindow ∧
      0 ≤ (s.child n).state.restartsInWindow :=
  (h.child n).counters hphase

/-- The invariant of the other children survives a change of one. -/
theorem Procs.Owned.others (h : s.Owned) {c : ProcChild}
    (hchild : s'.child = Function.update s.child n c) (m : String) (hm : m ≠ n) :
    (s'.child m).Owned := by
  rw [hchild, Function.update_of_ne hm]
  exact h.child m

/-- **A supervision step keeps the invariant** under unhurried policies. One case for each kind
of step; only a fall needs the policy. -/
theorem SupStep.owned {byReport : Prop} (hstep : SupStep r byReport s s') (hu : r.Unhurried)
    (h : s.Owned) : s'.Owned := by
  -- the spawn of a launch finds no process
  have hlaunch {n : String} {t : Int} {pid : Option Int} (hready : Launchable r s n)
      (hpos : ∀ p, pid = some p → 0 < p) : ((announce s n t).spawn r n pid).Booked := by
    refine (h.booked.setState n _).spawn r ?_ hpos
    rw [Procs.setState_child, Function.update_self]
    exact (h.child n).pid_nonpos hready.not_live
  cases hstep with
  | idle hsame => exact ⟨h.booked.of_same hsame, fun n => hsame.child ▸ h.child n⟩
  | @stable n hn hphase hsame =>
    exact h.set ((h.booked.setState n _).of_same hsame)
      (hsame.child.trans (Procs.setState_child ..))
      ⟨(h.child n).live, fun _ => ⟨rfl, Int.le_refl 0⟩⟩
  | @late n hn hlive hpid =>
    -- there is no such process
    exact absurd ((h.child n).pid_nonpos hlive) (Int.not_le.mpr hpid)
  | @launched n t pid hn hready hpid hsame =>
    exact h.set ((hlaunch hready fun p hp => Option.some.inj hp ▸ hpid).of_same hsame)
      (hsame.child.trans (launch_child ..))
      ⟨fun _ => rfl, fun _ => h.counters hready.ne_fatal⟩
  | @stillborn n t hn hready hfalls =>
    have hchild := launch_child r s n t none
    refine hfalls.owned (hu n hn) (hlaunch hready fun p hp => by cases hp) (h.others hchild) ?_ ?_
    · rw [hchild, Function.update_self]
      exact h.counters hready.ne_fatal
    · intro _
      rw [hchild, Function.update_self]
      exact (h.child n).pid_nonpos hready.not_live
  | @confirm n t hn hphase hwhy hsame =>
    exact h.set ((h.booked.setState n _).of_same hsame)
      (hsame.child.trans (Procs.setState_child ..))
      ⟨fun _ => rfl, fun _ => h.counters (by rw [hphase]; decide)⟩
  | @finished n t hn hlive hpid honeshot hsame =>
    exact h.set ((((h.booked.forget hpid).setState n _).complete n).of_same hsame)
      (hsame.child.trans (finish_child ..))
      ⟨fun hpos => absurd hpos (by decide : ¬ (0 : Int) < -1), fun _ => ⟨rfl, Int.le_refl 0⟩⟩
  | @exited n hn hpid hfalls =>
    have hchild := Procs.forget_child s n
    refine hfalls.owned (hu n hn) (h.booked.forget hpid) (h.others hchild) ?_ ?_
    · rw [hchild, Function.update_self]
      exact h.counters (Phase.ne_fatal_of_live ((h.child n).live hpid))
    · intro _
      rw [hchild, Function.update_self]
      exact (by decide : (-1 : Int) ≤ 0)
  | @timedOut n hn hpid hphase hfalls =>
    have hchild := Procs.kill_child s n
    refine hfalls.owned (hu n hn) (h.booked.kill n) (h.others hchild) ?_ ?_
    · rw [hchild, Function.update_self]
      exact h.counters (Phase.ne_fatal_of_live ((h.child n).live hpid))
    · intro _
      rw [hchild, Function.update_self]
      exact dropPid_nonpos _
  | @lost n hn hphase hfalls =>
    refine hfalls.owned (hu n hn) h.booked (fun m _ => h.child m)
      (h.counters (by rw [hphase]; decide)) fun hkind => by cases hkind

/-- A teardown keeps the invariant: it drops processes, and owning is a matter of those that are
on record. -/
theorem TearStep.owned (hstep : TearStep s s') (h : s.Owned) : s'.Owned := by
  have hdropped {c : ProcChild} {pid : Int} (hc : c.Owned) (hpid : pid ≤ 0) :
      ({ c with pid := pid } : ProcChild).Owned :=
    ⟨fun hpos => absurd hpid (Int.not_le.mpr hpos), hc.counters⟩
  cases hstep with
  | idle hsame => exact ⟨h.booked.of_same hsame, fun n => hsame.child ▸ h.child n⟩
  | @forget n hpid hsame =>
    exact h.set ((h.booked.forget hpid).of_same hsame)
      (hsame.child.trans (Procs.forget_child s n)) (hdropped (h.child n) (by decide))
  | @kill n hsame =>
    exact h.set ((h.booked.kill n).of_same hsame)
      (hsame.child.trans (Procs.kill_child s n)) (hdropped (h.child n) (dropPid_nonpos _))

/-- A report, before it is acted upon, starts and ends no process. -/
theorem Procs.Owned.noteReport (h : s.Owned) (msg : List HealthStatus) :
    (s.noteReport msg).Owned := by
  refine ⟨h.booked.of_inert (msg.map Rec.status).reverse rfl ?_
    fun _ => rfl, h.child⟩
  intro e he
  obtain ⟨st, -, rfl⟩ := List.mem_map.mp (List.mem_reverse.mp he)
  trivial

/-- **Every callback keeps the invariant** under unhurried policies: it is a sequence of
supervision steps or of teardown steps. -/
theorem nodeStep_owned {node node' : SupervisorNode} {cb : Callback} (hu : r.Unhurried)
    (h : node.procs.Owned) (hstep : NodeStep r env node cb node') : node'.procs.Owned := by
  have hsup {byReport : Prop} {s s' : Procs} (h : s.Owned) (hsteps : SupSteps r byReport s s') :
      s'.Owned :=
    steps_invariant (I := Procs.Owned) (fun _ _ h hstep => hstep.owned hu h) hsteps h
  obtain ⟨-, -, -, -, hsteps⟩ | ⟨-, -, -, hsteps, -⟩ |
    ⟨-, -, -, -, hsteps⟩ | ⟨msg, -, -, -, hsteps⟩ := nodeStep_cases hstep
  · exact hsup h hsteps
  · exact steps_invariant (I := Procs.Owned) (fun _ _ h hstep => hstep.owned h) hsteps h
  · exact hsup h hsteps
  · exact hsup (h.noteReport msg) hsteps.supSteps

/-- At the start there is no process. -/
theorem configured_owned (r : Roster) : (SupervisorNode.configured r).procs.Owned :=
  ⟨⟨fun _ => rfl, fun _ _ _ _ hm => by cases hm⟩,
    fun _ => ⟨fun hpid => absurd hpid (by decide : ¬ (0 : Int) < -1), fun _ => ⟨rfl, Int.le_refl 0⟩⟩⟩

/-- One process per child, in terms of the log and of the record: both are asked for, since a
process may be left that the record no longer knows of. -/
structure Procs.OneProcess (s : Procs) : Prop where
  /-- a spawn never finds a process on record -/
  spawns : ∀ n recorded deps pid, .spawnChild n recorded deps pid ∈ s.log → recorded ≤ 0
  /-- a process on record belongs to a child that is starting or running -/
  phase : ∀ n, 0 < (s.child n).pid → (s.child n).phase = .starting ∨ (s.child n).phase = .running
  /-- no child has two processes -/
  single : ∀ n, (liveProcs n s.log).length ≤ 1
  /-- no process is left under a child that is down -/
  none_left : ∀ n, liveProcs n s.log ≠ [] →
    (s.child n).phase = .starting ∨ (s.child n).phase = .running

/-- The invariant gives it: what the log says is what is on record, which is one process at most. -/
theorem Procs.Owned.oneProcess (h : s.Owned) : s.OneProcess where
  spawns := h.booked.spawns
  phase n hpid := (Phase.live_iff _).mp ((h.child n).live hpid)
  single n := by
    rw [h.booked.procs]
    simp only [ProcChild.procs]
    split
    · exact Nat.le_refl 1
    · exact Nat.zero_le 1
  none_left n hne := by
    rw [h.booked.procs] at hne
    refine (Phase.live_iff _).mp ((h.child n).live ?_)
    by_contra hpid
    exact hne (procs_of_nonpos (by omega))

/-- **One process per child**, in every run of the callbacks, when no backoff within a budget is
over at once. Neither the answers of the operating system nor the order of the callbacks is
restricted; only the policies are. -/
theorem process_owned (r : Roster) (env : Env) (hu : r.Unhurried) {h : List Callback}
    {node : SupervisorNode} (hr : Run (NodeStep r env) (.configured r) h node) :
    node.procs.OneProcess := by
  have hinv : node.procs.Owned :=
    hr.invariant (I := fun _ node => node.procs.Owned) (configured_owned r)
      fun _ _ _ _ h hstep => nodeStep_owned hu h hstep
  exact hinv.oneProcess

/-- An operating system that is asked one question a second, where every spawn
succeeds, and where `waitpid` finds a process running unless the script says
otherwise. -/
def scripted (script : List (Nat × WaitStatus)) : Env where
  nowNs i := i * 1000000000
  posixSpawn i := some ⟨100 + i, by omega⟩
  waitpid i := (script.lookup i).getD .stillRunning

/-- One child, with the default policy. -/
def steady : Roster := (loadChildrenFromParams [{ name := "base", cmd := ["/bin/base"] }]).get rfl

/-- A crash, a backoff, and a new process. -/
theorem process_owned_crash :
    ∃ node, Run (NodeStep steady (scripted [(3, .exited false)])) (.configured steady)
      [.tick, .tick, .onActivate] node ∧
      (node.procs.child "base").phase = .starting ∧ node.procs.OneProcess := by
  obtain ⟨node, hr, hphase⟩ := Run.of_exec_any (advance_step steady (scripted [(3, .exited false)]))
    (.configured steady) [.onActivate, .tick, .tick]
    (fun node => (node.procs.child "base").phase = .starting) (by decide)
  exact ⟨node, hr, of_decide_eq_true hphase,
    process_owned steady (scripted [(3, .exited false)]) (by decide) hr⟩

/-- One child, with a backoff of 0 ms. -/
def hurried : Roster :=
  (loadChildrenFromParams
    [{ name := "base", cmd := ["/bin/base"], backoffBaseMs := 0 }]).get rfl

/-- A crash, an immediate respawn under `backoff`, and one more spawn when the
next tick finds the backoff to be over: two processes. -/
theorem process_unowned :
    ∃ node, Run (NodeStep hurried (scripted [(3, .exited false)])) (.configured hurried)
        [.tick, .tick, .onActivate] node ∧ ¬ node.procs.OneProcess := by
  obtain ⟨node, hr, htwo⟩ := Run.of_exec_any (advance_step hurried (scripted [(3, .exited false)]))
    (.configured hurried) [.onActivate, .tick, .tick]
    (fun node => (liveProcs "base" node.procs.log).length = 2) (by decide)
  refine ⟨node, hr, ?_⟩
  intro h
  have hsingle := h.single "base"
  rw [of_decide_eq_true htwo] at hsingle
  omega

/-! ## Attendance

The converse of ownership: a live phase has a process. A spawn is announced before it is done,
and if it fails, the crash that is fed moves the child out of the live phases again, so every
supervision step keeps it. What breaks it is `on_deactivate`, which ends the processes and leaves
the phases. -/

/-- Every child in a live phase has a process on record. Whether it is still alive is for the
next tick to find out. -/
def Procs.Attended (r : Roster) (s : Procs) : Prop :=
  ∀ n ∈ r.names, (s.child n).phase.live = true → 0 < (s.child n).pid

/-- One child changes. -/
theorem Procs.Attended.set (h : s.Attended r) {c : ProcChild}
    (hchild : s'.child = Function.update s.child n c) (hc : c.phase.live = true → 0 < c.pid) :
    s'.Attended r := by
  intro m hm hlive
  rw [hchild] at hlive ⊢
  by_cases hmn : m = n
  · subst hmn
    rw [Function.update_self] at hlive ⊢
    exact hc hlive
  · rw [Function.update_of_ne hmn] at hlive ⊢
    exact h m hm hlive

/-- A fall leaves no live phase that was not there before: its source is down, and whoever gives
way is stopped. -/
theorem Falls.attended {t : Procs} {kind : ActionKind} (h : Falls r n kind t s') {c : ProcChild}
    (hs : s.Attended r) (hchild : t.child = Function.update s.child n c) : s'.Attended r := by
  obtain ⟨time, hothers⟩ := h.others
  intro m hm hlive
  by_cases hmn : m = n
  · subst hmn
    obtain hp | hp := h.phase <;> rw [hp] at hlive <;> cases hlive
  · rw [hothers m hmn, hchild, Function.update_of_ne hmn] at hlive ⊢
    split at hlive
    · obtain hp | hp := gaveWay_phase (time m) (s.child m) <;> rw [hp] at hlive <;> cases hlive
    · next hdep =>
      rw [if_neg hdep]
      exact hs m hm hlive

/-- **A supervision step keeps attendance**, whatever the policy. A launch gives the child a
process or makes it fall, and a fall leaves the live phases. -/
theorem SupStep.attended {byReport : Prop} (hstep : SupStep r byReport s s') (h : s.Attended r) :
    s'.Attended r := by
  cases hstep with
  | idle hsame => exact fun n hn => by rw [hsame.child]; exact h n hn
  | @stable n hn hphase hsame =>
    exact h.set (hsame.child.trans (Procs.setState_child ..)) fun hlive => h n hn hlive
  | @late n hn hlive hpid hsame =>
    have hdead {pid : Int} (hlive' : (s.child n).phase.live = true) : 0 < pid := by
      rw [hlive] at hlive'
      cases hlive'
    obtain hsame | ⟨-, hsame⟩ := hsame
    · exact h.set (hsame.child.trans (Procs.forget_child s n)) hdead
    · refine h.set (n := n) (c := { s.child n with pid := -1, completed := true }) ?_ hdead
      rw [hsame.child, Procs.complete_child, Procs.forget_child, Function.update_self,
        Function.update_idem]
  | @launched n t pid hn hready hpid hsame =>
    exact h.set (hsame.child.trans (launch_child ..)) fun _ => hpid
  | @stillborn n t hn hready hfalls => exact hfalls.attended h (launch_child r s n t none)
  | @confirm n t hn hphase hwhy hsame =>
    exact h.set (hsame.child.trans (Procs.setState_child ..)) fun _ =>
      h n hn (by rw [hphase]; rfl)
  | @finished n t hn hlive hpid honeshot hsame =>
    exact h.set (hsame.child.trans (finish_child ..)) fun hlive' => by cases hlive'
  | @exited n hn hpid hfalls => exact hfalls.attended h (Procs.forget_child s n)
  | @timedOut n hn hpid hphase hfalls => exact hfalls.attended h (Procs.kill_child s n)
  | @lost n hn hphase hfalls => exact hfalls.attended h (Function.update_eq_self n s.child).symm

/-- An activation that finds no child in a live phase, in particular none that
was torn down there. -/
def ColdStart (r : Roster) (node : SupervisorNode) : Callback → Prop
  | .onActivate => ∀ n ∈ r.names, (node.procs.child n).phase.live = false
  | .onDeactivate | .tick | .healthReport _ => True

instance (r : Roster) (node : SupervisorNode) : (cb : Callback) → Decidable (ColdStart r node cb)
  | .onActivate => inferInstanceAs (Decidable (∀ n ∈ r.names, _))
  | .onDeactivate | .tick | .healthReport _ => inferInstanceAs (Decidable True)

/-- With the timer on, no live child is without a process. A deactivation turns the timer off,
and an activation turns it on in a state without live children. -/
theorem nodeStep_attended {node node' : SupervisorNode} {cb : Callback}
    (hcold : ColdStart r node cb) (h : node.tickTimer = true → node.procs.Attended r)
    (hstep : NodeStep r env node cb node') : node'.tickTimer = true → node'.procs.Attended r := by
  have hsup {byReport : Prop} {s s' : Procs} (h : s.Attended r)
      (hsteps : SupSteps r byReport s s') : s'.Attended r :=
    steps_invariant (I := Procs.Attended r) (fun _ _ h hstep => hstep.attended h) hsteps h
  intro htimer
  -- an activation starts from nothing live, a deactivation turns the timer off
  obtain ⟨rfl, -, -, -, hsteps⟩ | ⟨-, hoff, -⟩ |
    ⟨-, hon, -, -, hsteps⟩ | ⟨msg, -, hon, -, hsteps⟩ := nodeStep_cases hstep
  · refine hsup ?_ hsteps
    intro n hn hlive
    rw [hcold n hn] at hlive
    cases hlive
  · rw [hoff] at htimer
    cases htimer
  · exact hsup (h hon) hsteps
  · have hnoted : (node.procs.noteReport msg).Attended r := h (hon ▸ htimer)
    exact hsup hnoted hsteps.supSteps

/-- **After every activation and every tick, a child in a live phase has a process**, as long as
no activation finds one in such a phase. A teardown leaves phases behind, and only an activation
that comes after it would take them seriously. -/
theorem live_attended (r : Roster) (env : Env) {cb : Callback} {h : List Callback}
    {node : SupervisorNode} (hcb : cb = .onActivate ∨ cb = .tick)
    (hr : Run (only (ColdStart r) (NodeStep r env)) (.configured r) (cb :: h) node) :
    ∀ n ∈ r.names, (node.procs.child n).phase = .starting ∨ (node.procs.child n).phase = .running →
      0 < (node.procs.child n).pid := by
  have hinv : node.tickTimer = true → node.procs.Attended r := by
    refine hr.invariant (I := fun _ node => node.tickTimer = true → node.procs.Attended r) ?_ ?_
    · intro htimer
      cases htimer
    · exact fun _ _ _ _ h hstep => nodeStep_attended hstep.1 h hstep.2
  have htimer : node.tickTimer = true := by
    cases hr with
    | snoc _ hstep =>
      obtain ⟨-, -, hon, -⟩ | ⟨hoff, -⟩ | ⟨-, -, hon, -⟩ |
        ⟨msg, hmsg, -⟩ := nodeStep_cases hstep.2
      · exact hon
      · obtain rfl | rfl := hcb <;> cases hoff
      · exact hon
      · obtain rfl | rfl := hcb <;> cases hmsg
  exact fun n hn hphase => hinv htimer n hn ((Phase.live_iff _).mpr hphase)

/-- A deactivation while the child is in `backoff`: the next activation finds
no live phase. -/
theorem live_attended_backoff :
    ∃ node, Run (only (ColdStart steady) (NodeStep steady (scripted [(3, .exited false)])))
        (.configured steady) [.tick, .onActivate, .onDeactivate, .tick, .onActivate] node ∧
      ∀ n ∈ steady.names,
        (node.procs.child n).phase = .starting ∨ (node.procs.child n).phase = .running →
          0 < (node.procs.child n).pid := by
  obtain ⟨node, hr, -⟩ := Run.of_exec_any
    (restrict_only (ColdStart steady) (advance_step steady (scripted [(3, .exited false)])))
    (.configured steady) [.onActivate, .tick, .onDeactivate, .onActivate, .tick]
    (fun _ => true) (by decide)
  exact ⟨node, hr, live_attended steady (scripted [(3, .exited false)]) (Or.inr rfl) hr⟩

/-- A deactivation while the child is running: its phase stays, its process
does not, and the next activation sees nothing to do. -/
theorem live_unattended :
    ∃ node, Run (NodeStep steady (scripted [])) (.configured steady)
        [.onActivate, .onDeactivate, .tick, .onActivate] node ∧
      ¬ ∀ n ∈ steady.names,
        (node.procs.child n).phase = .starting ∨ (node.procs.child n).phase = .running →
          0 < (node.procs.child n).pid := by
  obtain ⟨node, hr, hdead⟩ := Run.of_exec_any (advance_step steady (scripted []))
    (.configured steady) [.onActivate, .tick, .onDeactivate, .onActivate]
    (fun node => (node.procs.child "base").phase = .running ∧ (node.procs.child "base").pid = -1)
    (by decide)
  obtain ⟨hphase, hpid⟩ := of_decide_eq_true hdead
  refine ⟨node, hr, ?_⟩
  intro h
  have hpos := h "base" (by decide) (Or.inr hphase)
  rw [hpid] at hpos
  omega

/-! ## After a teardown

With the timer off, the only callbacks are health reports. A report can make a child fail and its
dependents give way, but no signal starts a process, so a node that is inactive stays without
children. -/

/-- No child has a process on record. -/
def Procs.Vacant (r : Roster) (s : Procs) : Prop := ∀ n ∈ r.names, (s.child n).pid ≤ 0

theorem gaveWay_vacant {c : ProcChild} (h : c.pid ≤ 0) (t : Int) : (gaveWay t c).pid ≤ 0 := by
  simp only [gaveWay]
  split_ifs
  · exact dropPid_nonpos c.pid
  · exact h
  · exact h

/-- A child that is lost is killed, and is not replaced before its backoff is over. So it leaves
nothing on record, if nothing was there. -/
theorem Falls.vacant (hfalls : Falls r n .kill s s') (hs : s.Vacant r) : s'.Vacant r := by
  have hset (st : ChildState) : (s.setState n st).Vacant r := by
    intro m hm
    rw [Procs.setState_child, Function.update_apply]
    split
    · next heq => exact heq ▸ hs m hm
    · exact hs m hm
  have hkill {u u' : Procs} (hcascade : Cascaded r n u u') (hu : u.Vacant r)
      (hsame : (u'.kill n).Same s') : s'.Vacant r := by
    intro m hm
    obtain ⟨t, hchild⟩ := hcascade.child
    have hvacant : (u'.child m).pid ≤ 0 := by
      rw [hchild]
      split
      · exact gaveWay_vacant (hu m hm) _
      · exact hu m hm
    rw [hsame.child, Procs.kill_child, Function.update_apply]
    split
    · exact dropPid_nonpos _
    · exact hvacant
  cases hfalls with
  | fatal _ _ hcascade hsame => exact hkill hcascade (hset _) hsame
  | kill _ _ hcascade hsame => exact hkill hcascade (hset _) hsame

/-- No signal of the health feed starts a process. It confirms one, or has one killed. -/
theorem HealthStep.vacant {signal : String × Bool} (hstep : HealthStep r signal s s')
    (hs : s.Vacant r) : s'.Vacant r := by
  cases hstep with
  | @confirm s s' n t hn hphase hsame =>
    intro m hm
    rw [hsame.child, Procs.setState_child, Function.update_apply]
    split
    · next heq => exact heq ▸ hs m hm
    · exact hs m hm
  | lost hn hphase hfalls => exact hfalls.vacant hs
  | ignored hwhy hsame => exact fun m hm => hsame.child ▸ hs m hm

theorem HealthSteps.vacant {signals : List (String × Bool)} (hsteps : HealthSteps r signals s s')
    (hs : s.Vacant r) : s'.Vacant r := by
  induction hsteps with
  | done hsame => exact fun m hm => hsame.child ▸ hs m hm
  | signal hstep _ ih => exact ih (hstep.vacant hs)

/-- **No process is left**: whenever the tick timer is off, before the first activation and after
every deactivation, every process of a child is gone or was killed, whatever reports arrive. By
ownership the log knows no process that is not on record, and a teardown empties the record. -/
theorem none_orphaned (r : Roster) (env : Env) (hu : r.Unhurried) {h : List Callback}
    {node : SupervisorNode} (hr : Run (NodeStep r env) (.configured r) h node)
    (hoff : node.tickTimer = false) : ∀ n ∈ r.names, liveProcs n node.procs.log = [] := by
  have hvacant : node.tickTimer = false → node.procs.Vacant r := by
    refine hr.invariant (I := fun _ node => node.tickTimer = false → node.procs.Vacant r) ?_ ?_
    · exact fun _ n _ => (by decide : (-1 : Int) ≤ 0)
    · intro h node cb node' hI hstep hoff
      obtain ⟨-, -, hon, -⟩ | ⟨-, -, -, -, hvacant⟩ | ⟨-, -, hon, -⟩ | ⟨msg, -, htimer, -, hsteps⟩ :=
        nodeStep_cases hstep
      · rw [hon] at hoff
        cases hoff
      · exact hvacant
      · rw [hon] at hoff
        cases hoff
      · exact hsteps.vacant (hI (htimer ▸ hoff))
  have howned : node.procs.Owned :=
    hr.invariant (I := fun _ node => node.procs.Owned) (configured_owned r)
      fun _ _ _ _ h hstep => nodeStep_owned hu h hstep
  intro n hn
  rw [howned.booked.procs]
  exact procs_of_nonpos (hvacant hoff n hn)

/-- A crash, a new process, and a deactivation. -/
theorem none_orphaned_stopped :
    ∃ node, Run (NodeStep steady (scripted [(3, .exited false)])) (.configured steady)
        [.onDeactivate, .tick, .tick, .onActivate] node ∧
      ∀ n ∈ steady.names, liveProcs n node.procs.log = [] := by
  obtain ⟨node, hr, hoff⟩ := Run.of_exec_any (advance_step steady (scripted [(3, .exited false)]))
    (.configured steady) [.onActivate, .tick, .tick, .onDeactivate]
    (fun node => node.tickTimer = false) (by decide)
  exact ⟨node, hr, none_orphaned steady (scripted [(3, .exited false)]) (by decide) hr
    (of_decide_eq_true hoff)⟩

end AmrFramework.Monitoring
