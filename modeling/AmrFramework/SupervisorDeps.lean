import AmrFramework.SupervisorProcess

/-!
# Dependencies first

`Procs.Sheltered` is the invariant that spans all children at once: a child
that is starting, running or waiting to be restarted has all its dependencies
running, and so has a completed oneshot child, since it completed. The cascade
keeps it (`Falls.sheltered`): whoever depends on the child that fails gives
way, and nobody else is affected.

It is an invariant of one activation (`deps_respected`): a teardown leaves the
phases alone, so afterwards the phases say nothing about the processes.
-/

namespace AmrFramework.Monitoring

open DependencyOrder Runs

variable {r : Roster} {env : Env} {s s' : Procs} {n : String}

/-! ## The dependency graph

The roster lists children in bring-up order, so a dependency always stands before what needs it,
and the graph has no cycle. The two lemmas here put the breadth-first search of
`transitiveDependents` in terms of the transitive closure of `IsDep`, which is what the cascade
argument speaks of. -/

namespace Roster

/-- Dependencies are children. -/
theorem dep_mem (r : Roster) {m d : String} (hm : m ∈ r.names) (hd : d ∈ r.deps m) :
    d ∈ r.names := by
  have htopo : m ∈ r.topo := r.perm.mem_iff.mpr hm
  exact r.perm.mem_iff.mp ((r.depsFirst.idxOf_lt htopo hd).resolve_left List.not_mem_nil).1

/-- What `transitiveDependents` computes. -/
theorem mem_transitiveDependents (r : Roster) (hn : n ∈ r.names) {m : String} :
    m ∈ r.transitiveDependents n ↔ m ∈ r.names ∧ Relation.TransGen (IsDep r.deps) n m := by
  have hscan : m ∈ r.transitiveDependents n ↔ m ∈ r.topo ∧ Relation.TransGen (IsDep r.deps) n m :=
    mem_scanAffected r.depsFirst (r.perm.mem_iff.mpr hn)
  rw [hscan, r.perm.mem_iff]

/-- A child that does not depend on `n` does not depend on a dependent of `n`
either. For `n` itself, this is acyclicity. -/
theorem deps_untouched (r : Roster) (hn : n ∈ r.names) {m d : String} (hm : m ∈ r.names)
    (hnot : m ∉ r.transitiveDependents n) (hd : d ∈ r.deps m) :
    d ≠ n ∧ d ∉ r.transitiveDependents n := by
  constructor
  · rintro rfl
    exact hnot ((r.mem_transitiveDependents hn).mpr ⟨hm, .single hd⟩)
  · intro hdep
    obtain ⟨-, hpath⟩ := (r.mem_transitiveDependents hn).mp hdep
    exact hnot ((r.mem_transitiveDependents hn).mpr ⟨hm, hpath.tail hd⟩)

end Roster

/-! ## The invariant

It is stated per child. When `n` changes, only two things can break it: a child that depends on
`n` loses a running dependency, or `n` itself becomes engaged while a dependency of its own is
down. Every lemma below has these two side conditions, or neither, if the operation changes no
phase. -/

/-- The phases that presuppose the dependencies: starting, running, or waiting in `backoff` to be
started again. -/
def Phase.engaged : Phase → Bool
  | .starting | .running | .backoff => true
  | .stopped | .fatal => false

/-- All dependencies of `m` are running. -/
def Procs.DepsUp (r : Roster) (s : Procs) (m : String) : Prop :=
  ∀ d ∈ r.deps m, (s.child d).phase = .running

/-- An entry that leaves the phases of all dependencies of `m` as they are. -/
def Rec.SparesDeps (r : Roster) (m : String) (e : Rec) : Prop :=
  ∀ d ∈ r.deps m, ∀ before after, e ≠ .phase d before after

/-- Dependencies first. Beside the phases it keeps what the log says of each spawn: `spawnChild`
notes whether all dependencies were running when it was asked. -/
structure Procs.Sheltered (r : Roster) (s : Procs) : Prop where
  /-- an engaged child has its dependencies running -/
  engaged : ∀ m ∈ r.names, (s.child m).phase.engaged = true → s.DepsUp r m
  /-- so has a child that is spawned, at that moment -/
  spawns : ∀ m recorded deps pid, .spawnChild m recorded deps pid ∈ s.log → deps = true
  /-- and one that is completed, ever since it completed -/
  completed : ∀ m ∈ r.names, (s.child m).completed = true →
    s.DepsUp r m ∧ Since (Rec.SparesDeps r m) (fun e => e = .completed m) s.log

theorem Phase.engaged_of_live {p : Phase} (h : p.live = true) : p.engaged = true := by
  cases p <;> simp_all [Phase.live, Phase.engaged]

namespace Procs.Sheltered

/-- An operation that changes no phase, spawns only what may be spawned and completes only what
has its dependencies running. Process operations and reports are of this kind, and they are done
by this one lemma. -/
theorem of_phases (h : s.Sheltered r) (new : List Rec) (hlog : s'.log = new ++ s.log)
    (hnew : ∀ e ∈ new, ∀ n before after, e ≠ .phase n before after)
    (hspawn : ∀ m recorded deps pid, .spawnChild m recorded deps pid ∈ new → deps = true)
    (hphase : ∀ m, (s'.child m).phase = (s.child m).phase)
    (hdone : ∀ m, (s'.child m).completed = true →
      (s.child m).completed = true ∨ s.DepsUp r m ∧ .completed m ∈ new) : s'.Sheltered r := by
  have hup {m : String} (h : s.DepsUp r m) : s'.DepsUp r m := fun d hd => by
    rw [hphase]
    exact h d hd
  have hspares (m : String) : ∀ e ∈ new, e.SparesDeps r m := fun e he d _ => hnew e he d
  refine ⟨?_, ?_, ?_⟩
  · intro m hm hp
    rw [hphase] at hp
    exact hup (h.engaged m hm hp)
  · intro m recorded deps pid hmem
    rw [hlog] at hmem
    obtain hmem | hmem := List.mem_append.mp hmem
    · exact hspawn m recorded deps pid hmem
    · exact h.spawns m recorded deps pid hmem
  · intro m hm hd
    rw [hlog]
    obtain hold | ⟨hdeps, hmem⟩ := hdone m hd
    · obtain ⟨hdeps, hsince⟩ := h.completed m hm hold
      exact ⟨hup hdeps, hsince.append (hspares m)⟩
    · exact ⟨hup hdeps, Since.of_mem (Q := fun e => e = .completed m) rfl (hspares m) hmem⟩

theorem of_same (h : s.Sheltered r) (hsame : s.Same s') : s'.Sheltered r :=
  h.of_phases [] hsame.log (fun e he => by cases he) (fun _ _ _ _ hm => by cases hm)
    (fun m => by rw [hsame.child]) (fun m hm => Or.inl (by rw [← hsame.child]; exact hm))

/-- Dropping a pid. -/
theorem drop (h : s.Sheltered r) {pid : Int} (e : Rec) (hlog : s'.log = e :: s.log)
    (he : e = .gone n (s.child n).pid ∨ e = .killed n (s.child n).pid)
    (hchild : s'.child = Function.update s.child n { s.child n with pid := pid }) :
    s'.Sheltered r := by
  have hsame (m : String) : (s'.child m).phase = (s.child m).phase ∧
      (s'.child m).completed = (s.child m).completed := by
    rw [hchild]
    by_cases hm : m = n
    · subst hm
      rw [Function.update_self]
      exact ⟨rfl, rfl⟩
    · rw [Function.update_of_ne hm]
      exact ⟨rfl, rfl⟩
  refine h.of_phases [e] hlog ?_ ?_ (fun m => (hsame m).1) fun m hm => Or.inl ((hsame m).2 ▸ hm)
  · intro e' he'
    rw [List.mem_singleton.mp he']
    obtain rfl | rfl := he <;> exact fun _ _ _ => Rec.noConfusion
  · intro m recorded deps pid hm
    have hspawn := List.mem_singleton.mp hm
    obtain rfl | rfl := he <;> cases hspawn

theorem forget (h : s.Sheltered r) (n : String) : (s.forget n).Sheltered r :=
  h.drop _ rfl (Or.inl rfl) (Procs.forget_child s n)

theorem kill (h : s.Sheltered r) (n : String) : (s.kill n).Sheltered r := by
  by_cases hpid : (s.child n).pid ≤ 0
  · simp only [Procs.kill]
    rw [if_pos hpid]
    exact h
  · have hlog := Procs.kill_log s n
    rw [if_neg hpid] at hlog
    exact h.drop _ hlog (Or.inr rfl) (Procs.kill_child s n)

theorem noteReport (h : s.Sheltered r) (msg : List HealthStatus) :
    (s.noteReport msg).Sheltered r := by
  have hstatus {e : Rec} (he : e ∈ (msg.map Rec.status).reverse) : ∃ st, .status st = e := by
    obtain ⟨st, -, hst⟩ := List.mem_map.mp (List.mem_reverse.mp he)
    exact ⟨st, hst⟩
  refine h.of_phases (msg.map Rec.status).reverse rfl ?_ ?_ (fun _ => rfl) fun _ => Or.inl
  · intro e he
    obtain ⟨st, rfl⟩ := hstatus he
    exact fun _ _ _ => Rec.noConfusion
  · intro _ _ _ _ hm
    obtain ⟨st, hst⟩ := hstatus hm
    cases hst

/-- A oneshot child is marked completed. -/
theorem complete (h : s.Sheltered r) (hup : s.DepsUp r n) : (s.complete n).Sheltered r := by
  refine h.of_phases [.completed n] rfl ?_ ?_ ?_ ?_
  · intro e he
    rw [List.mem_singleton.mp he]
    exact fun _ _ _ => Rec.noConfusion
  · intro _ _ _ _ hm
    cases List.mem_singleton.mp hm
  · intro m
    rw [Procs.complete_child]
    by_cases hmn : m = n
    · subst hmn
      rw [Function.update_self]
      rfl
    · rw [Function.update_of_ne hmn]
  · intro m hm
    by_cases hmn : m = n
    · subst hmn
      exact Or.inr ⟨hup, List.mem_singleton_self _⟩
    · rw [Procs.complete_child, Function.update_of_ne hmn] at hm
      exact Or.inl hm

/-- A child whose dependencies are running is spawned. -/
theorem spawn (h : s.Sheltered r) (hn : n ∈ r.names) (hup : s.DepsUp r n) (pid : Option Int) :
    (s.spawn r n pid).Sheltered r := by
  have hdeps : depsAllRunning r s n = true := by
    apply List.all_eq_true.mpr
    intro d hd
    simp [r.dep_mem hn hd, hup d hd]
  have hsame (m : String) : ((s.spawn r n pid).child m).phase = (s.child m).phase ∧
      ((s.spawn r n pid).child m).completed = (s.child m).completed := by
    rw [Procs.spawn_child]
    by_cases hm : m = n
    · subst hm
      rw [Function.update_self]
      exact ⟨rfl, rfl⟩
    · rw [Function.update_of_ne hm]
      exact ⟨rfl, rfl⟩
  refine h.of_phases [_] (Procs.spawn_log r s n pid) ?_ ?_
    (fun m => (hsame m).1) fun m hm => Or.inl ((hsame m).2 ▸ hm)
  · intro e he
    rw [List.mem_singleton.mp he]
    exact fun _ _ _ => Rec.noConfusion
  · intro _ _ _ _ hm
    cases List.mem_singleton.mp hm
    exact hdeps

/-- What a child's dependencies are is not affected by a new state of the child
`n`, unless `n` was running and something depends on it. -/
theorem depsUp_setState {st : ChildState} {m : String} (hm : m ∈ r.names)
    (hrun : (s.child n).phase = .running → st.phase = .running ∨ ∀ m ∈ r.names, n ∉ r.deps m)
    (h : s.DepsUp r m) : (s.setState n st).DepsUp r m := by
  intro d hd
  rw [Procs.setState_child]
  by_cases hdn : d = n
  · subst hdn
    rw [Function.update_self]
    exact (hrun (h d hd)).resolve_right fun hnone => hnone m hm hd
  · rw [Function.update_of_ne hdn]
    exact h d hd

/-- A new state for `n`: nothing may depend on it if it stops running, and its
own dependencies must be running if it is engaged. -/
theorem setState (h : s.Sheltered r) {st : ChildState}
    (hrun : (s.child n).phase = .running → st.phase = .running ∨ ∀ m ∈ r.names, n ∉ r.deps m)
    (hup : n ∈ r.names → st.phase.engaged = true → s.DepsUp r n) :
    (s.setState n st).Sheltered r := by
  refine ⟨?_, ?_, ?_⟩
  · intro m hm hphase
    apply depsUp_setState hm hrun
    rw [Procs.setState_child] at hphase
    by_cases hmn : m = n
    · subst hmn
      rw [Function.update_self] at hphase
      exact hup hm hphase
    · rw [Function.update_of_ne hmn] at hphase
      exact h.engaged m hm hphase
  · intro m recorded deps pid hmem
    rw [Procs.setState_log] at hmem
    split at hmem
    · obtain hmem | hmem := List.mem_cons.mp hmem
      · cases hmem
      · exact h.spawns m recorded deps pid hmem
    · exact h.spawns m recorded deps pid hmem
  · intro m hm hdone
    have hdone' : (s.child m).completed = true := by
      rw [Procs.setState_child] at hdone
      by_cases hmn : m = n
      · subst hmn
        rw [Function.update_self] at hdone
        exact hdone
      · rw [Function.update_of_ne hmn] at hdone
        exact hdone
    obtain ⟨hdeps, hsince⟩ := h.completed m hm hdone'
    refine ⟨depsUp_setState hm hrun hdeps, ?_⟩
    rw [Procs.setState_log]
    split
    · next hne =>
      refine Or.inr ⟨?_, hsince⟩
      intro d hd before after he
      -- a dependency of `m` was running, and would have to be running still
      have hrunning := hdeps d hd
      cases he
      obtain hst | hnone := hrun hrunning
      · exact hne (hst.trans hrunning.symm)
      · exact hnone m hm hd
    · exact hsince

end Procs.Sheltered

/-! ## Falling

When `n` fails it stops running, so everything that depends on it, directly or not, must leave
the engaged phases in the same step. That is the cascade, and the reason why it goes over the
*transitive* dependents: a direct dependent that gives way stops running too. -/

/-- A fall leaves the dependencies of `m` alone, unless `m` gives way. -/
theorem Falls.depsUp {kind : ActionKind} (h : Falls r n kind s s') (hn : n ∈ r.names)
    {m : String} (hm : m ∈ r.names) (hnot : m ∉ r.transitiveDependents n) (hup : s.DepsUp r m) :
    s'.DepsUp r m := by
  obtain ⟨t, hchild⟩ := h.others
  intro d hd
  obtain ⟨hdn, hdep⟩ := r.deps_untouched hn hm hnot hd
  rw [hchild d hdn, if_neg hdep]
  exact hup d hd

/-- **A fall keeps the invariant**, unless it respawns: the dependents have given way, and the
others depend on nothing that has changed. A respawn is left out, since no fall ends in one where
every backoff is positive. -/
theorem Falls.sheltered {kind : ActionKind} (h : Falls r n kind s s') (hs : s.Sheltered r)
    (hn : n ∈ r.names) (hrespawn : ¬ Respawns r s n kind) : s'.Sheltered r := by
  obtain ⟨t, hchild⟩ := h.others
  obtain ⟨new, hlog, hof⟩ := h.logs
  have hself : n ∉ r.transitiveDependents n := not_mem_transitiveDependents r n
  have hlive : (s.child n).phase.live = true := by
    cases h <;> assumption
  refine ⟨?_, ?_, ?_⟩
  · intro m hm hp
    by_cases hmn : m = n
    · subst hmn
      exact h.depsUp hn hm hself (hs.engaged m hm (Phase.engaged_of_live hlive))
    · rw [hchild m hmn] at hp
      split at hp
      · obtain h | h := gaveWay_phase (t m) (s.child m) <;> rw [h] at hp <;> cases hp
      · next hnot => exact h.depsUp hn hm hnot (hs.engaged m hm hp)
  · intro m recorded deps pid hmem
    rw [hlog] at hmem
    obtain hmem | hmem := List.mem_append.mp hmem
    · exact absurd (hof _ hmem).2 hrespawn
    · exact hs.spawns m recorded deps pid hmem
  · intro m hm hdone
    have hkept : m ∉ r.transitiveDependents n ∧ (s.child m).completed = true := by
      by_cases hmn : m = n
      · subst hmn
        obtain ⟨_, -, hcompleted⟩ := h.state
        exact ⟨hself, hcompleted ▸ hdone⟩
      · rw [hchild m hmn] at hdone
        split at hdone
        · -- giving way clears the mark
          simp only [gaveWay] at hdone
          split_ifs at hdone
        · next hnot => exact ⟨hnot, hdone⟩
    obtain ⟨hup, hsince⟩ := hs.completed m hm hkept.2
    -- the new entries are about `n` and its dependents only
    refine ⟨h.depsUp hn hm hkept.1 hup, ?_⟩
    rw [hlog]
    apply hsince.append
    intro e he d hd before after hphase
    subst hphase
    obtain ⟨hdn, hdep⟩ := r.deps_untouched hn hm hkept.1 hd
    obtain h | h := (hof _ he).1
    · exact hdn h
    · exact hdep h

/-! ## Supervision steps

One case per kind of supervision step. A launch is guarded by the check of `depsAllRunning`; a
failure is a fall; the other steps change no phase, or turn a starting child into a running one,
on which nothing engaged depends yet. -/

/-- The configurations in question: every backoff and cap is positive, and
nothing depends on a oneshot child. -/
structure Roster.Orderly (r : Roster) : Prop where
  positive : ∀ n ∈ r.names, 0 < (r.policy n).backoffBaseNs ∧ 0 < (r.policy n).backoffMaxNs
  no_oneshot_dep : ∀ m ∈ r.names, ∀ d ∈ r.deps m, (r.decl d).spec.oneshot = false

theorem Roster.Orderly.unhurried (h : r.Orderly) : r.Unhurried := fun n hn =>
  Or.inr ⟨(h.positive n hn).1, Or.inr (h.positive n hn).2⟩

/-- **A supervision step keeps the invariant.** The ownership invariant says that the counters
agree, so that no backoff is over at once, and that a child outside the live phases has no
process whose exit could be collected late. -/
theorem SupStep.sheltered {byReport : Prop} (hstep : SupStep r byReport s s') (hr : r.Orderly)
    (ho : s.Owned) (hs : s.Sheltered r) : s'.Sheltered r := by
  -- a launched child has its dependencies running
  have hready_up {n : String} (hn : n ∈ r.names) (hready : Launchable r s n) : s.DepsUp r n := by
    obtain ⟨-, -, hdeps⟩ | hbackoff := hready
    · intro d hd
      have hrunning := List.all_eq_true.mp hdeps d hd
      simp only [Bool.and_eq_true, decide_eq_true_eq] at hrunning
      exact hrunning.2
    · exact hs.engaged n hn (by rw [hbackoff]; rfl)
  have hannounce {n : String} {t : Int} {pid : Option Int} (hn : n ∈ r.names)
      (hready : Launchable r s n) : ((announce s n t).spawn r n pid).Sheltered r := by
    have hrun (hp : (s.child n).phase = .running) : Phase.starting = .running ∨
        ∀ m ∈ r.names, n ∉ r.deps m := by
      have := hready.not_live
      rw [hp] at this
      cases this
    have hup := hready_up hn hready
    exact (hs.setState hrun fun _ _ => hup).spawn hn
      (Procs.Sheltered.depsUp_setState hn hrun hup) pid
  cases hstep with
  | idle hsame => exact hs.of_same hsame
  | @stable n hn hphase hsame =>
    refine Procs.Sheltered.of_same (hs.setState (fun _ => Or.inl ?_) ?_) hsame
    · exact hphase
    · intro hn _
      exact hs.engaged n hn (by rw [hphase]; rfl)
  | @late n hn hlive hpid => exact absurd ((ho.child n).pid_nonpos hlive) (Int.not_le.mpr hpid)
  | @launched n t pid hn hready hpid hsame => exact (hannounce hn hready).of_same hsame
  | @stillborn n t hn hready hfalls =>
    refine hfalls.sheltered (hannounce hn hready) hn
      ((hr.unhurried n hn).not_respawns ?_ .spawn)
    rw [launch_child, Function.update_self]
    exact ho.counters hready.ne_fatal
  | @confirm n t hn hphase hwhy hsame =>
    exact (hs.setState (fun _ => Or.inl rfl) fun hn _ =>
      hs.engaged n hn (by rw [hphase]; rfl)).of_same hsame
  | @finished n t hn hlive hpid honeshot hsame =>
    have hnone : ∀ m ∈ r.names, n ∉ r.deps m := by
      intro m hm hd
      rw [hr.no_oneshot_dep m hm n hd] at honeshot
      cases honeshot
    have hforget := hs.forget n
    have hup : (s.forget n).DepsUp r n := by
      apply hforget.engaged n hn
      rw [Procs.forget_child, Function.update_self]
      exact Phase.engaged_of_live hlive
    exact ((hforget.setState (fun _ => Or.inr hnone) fun _ hp => by cases hp).complete
      (Procs.Sheltered.depsUp_setState hn (fun _ => Or.inr hnone) hup)).of_same hsame
  | @exited n hn hpid hfalls =>
    refine hfalls.sheltered (hs.forget n) hn ((hr.unhurried n hn).not_respawns ?_ .spawn)
    rw [Procs.forget_child, Function.update_self]
    exact ho.counters (Phase.ne_fatal_of_live ((ho.child n).live hpid))
  | @timedOut n hn hpid hphase hfalls =>
    refine hfalls.sheltered (hs.kill n) hn ((hr.unhurried n hn).not_respawns ?_ .spawn)
    rw [Procs.kill_child, Function.update_self]
    exact ho.counters (Phase.ne_fatal_of_live ((ho.child n).live hpid))
  | @lost n hn hphase hfalls =>
    exact hfalls.sheltered hs hn fun h => by cases h.1

/-! ## One activation

`on_deactivate` kills the processes without telling the state machines, so after it a phase of
`running` is no evidence of anything. Within one activation the phases are true, and the
invariant holds in every run. -/

/-- The callbacks of one activation. -/
def OneActivation (_ : SupervisorNode) (cb : Callback) : Prop := cb ≠ .onDeactivate

instance (node : SupervisorNode) (cb : Callback) : Decidable (OneActivation node cb) :=
  inferInstanceAs (Decidable (cb ≠ .onDeactivate))

/-- Both invariants, for one callback of the node. They go together, because the step lemma of
the second needs the first. -/
theorem nodeStep_sheltered {node node' : SupervisorNode} {cb : Callback} (hr : r.Orderly)
    (hcb : OneActivation node cb) (h : node.procs.Owned ∧ node.procs.Sheltered r)
    (hstep : NodeStep r env node cb node') : node'.procs.Owned ∧ node'.procs.Sheltered r := by
  have hsup {byReport : Prop} {s s' : Procs} (h : s.Owned ∧ s.Sheltered r)
      (hsteps : SupSteps r byReport s s') : s'.Owned ∧ s'.Sheltered r :=
    steps_invariant (I := fun s => s.Owned ∧ s.Sheltered r)
      (fun _ _ h hstep => ⟨hstep.owned hr.unhurried h.1, hstep.sheltered hr h.1 h.2⟩) hsteps h
  obtain ⟨-, -, -, -, hsteps⟩ | ⟨hoff, -⟩ | ⟨-, -, -, -, hsteps⟩ |
    ⟨msg, -, -, -, hsteps⟩ := nodeStep_cases hstep
  · exact hsup h hsteps
  · exact absurd hoff hcb
  · exact hsup h hsteps
  · exact hsup ⟨h.1.noteReport msg, h.2.noteReport msg⟩ hsteps.supSteps

/-- Dependencies are respected, as far as phases and log can say: now, at every spawn, and ever
since a oneshot child completed. -/
structure Procs.DepsRespected (r : Roster) (s : Procs) : Prop where
  /-- a child that is starting, running or backing off has its dependencies running -/
  up : ∀ m ∈ r.names, (s.child m).phase = .starting ∨ (s.child m).phase = .running ∨
    (s.child m).phase = .backoff → ∀ d ∈ r.deps m, (s.child d).phase = .running
  /-- every spawn was of a child with all dependencies running -/
  spawns : ∀ m recorded deps pid, .spawnChild m recorded deps pid ∈ s.log → deps = true
  /-- the dependencies of a completed child are running, and have not changed
  phase since it completed -/
  completed : ∀ m ∈ r.names, (s.child m).completed = true → ∀ d ∈ r.deps m,
    (s.child d).phase = .running ∧
      Since (fun e => ∀ before after, e ≠ .phase d before after) (fun e => e = .completed m) s.log

/-- The invariant gives it. -/
theorem Procs.Sheltered.depsRespected (h : s.Sheltered r) : s.DepsRespected r where
  up m hm hp := by
    apply h.engaged m hm
    obtain hp | hp | hp := hp <;> rw [hp] <;> rfl
  spawns := h.spawns
  completed m hm hdone d hd := by
    obtain ⟨hup, hsince⟩ := h.completed m hm hdone
    exact ⟨hup d hd, hsince.imp (fun e he => he d hd) fun _ => id⟩

/-- **Dependencies are respected** in every run of one activation, in whatever order timers,
reports and queries come and whatever the operating system answers: no child is engaged while a
dependency is down, and none is spawned then. -/
theorem deps_respected (r : Roster) (env : Env) (horderly : r.Orderly) {h : List Callback}
    {node : SupervisorNode}
    (hr : Run (only OneActivation (NodeStep r env)) (.configured r) h node) :
    node.procs.DepsRespected r := by
  have hstart : (SupervisorNode.configured r).procs.Sheltered r := by
    refine ⟨?_, ?_, ?_⟩
    · intro _ _ hp
      cases hp
    · intro _ _ _ _ hm
      cases hm
    · intro _ _ hd
      cases hd
  have hinv : node.procs.Owned ∧ node.procs.Sheltered r := by
    refine hr.invariant (I := fun _ node => node.procs.Owned ∧ node.procs.Sheltered r)
      ⟨configured_owned r, hstart⟩ ?_
    exact fun _ _ _ _ h hstep => nodeStep_sheltered horderly hstep.1 h hstep.2
  exact hinv.2.depsRespected

/-- Two children that depend on a third, one of them oneshot. -/
def navStack : Roster :=
  (loadChildrenFromParams
    [{ name := "nav", cmd := ["/bin/nav"], dependsOn := ["base"] },
      { name := "map", cmd := ["/bin/map"], dependsOn := ["base"], oneshot := true },
      { name := "base", cmd := ["/bin/base"] }]).get rfl

/-- Everything is brought up, and the oneshot child completes. -/
theorem deps_respected_completed :
    ∃ node, Run (only OneActivation (NodeStep navStack (scripted [(17, .exited true)])))
        (.configured navStack) [.tick, .tick, .tick, .onActivate] node ∧
      (node.procs.child "map").completed = true ∧ node.procs.DepsRespected navStack := by
  obtain ⟨node, hr, hdone⟩ := Run.of_exec_any
    (restrict_only OneActivation (advance_step navStack (scripted [(17, .exited true)])))
    (.configured navStack) [.onActivate, .tick, .tick, .tick]
    (fun node => (node.procs.child "map").completed) (by decide)
  exact ⟨node, hr, hdone, deps_respected navStack (scripted [(17, .exited true)])
    ⟨by decide, by decide⟩ hr⟩

end AmrFramework.Monitoring
