import AmrFramework.SupervisorEffects

/-!
# Supervision steps

`SupStep` is one step of supervision of one child, with everything a proof may
rely on. Every callback is a sequence of such steps, and so none of the proofs
that follow looks into `feed` again:

* `bringUp_cases` — a round of the bring-up launches a ready child (`Launches`), or
  does nothing;
* `tryBringUp_steps`, `tick_steps` — bring-up and tick;
* `HealthStep` — one signal of the health feed, which confirms a start, or
  finds a running child lost, or is ignored (`onHealth_step`);
* `TearStep` — the teardown only drops processes (`teardown_steps`), and in the
  end there is none left (`teardown_down`);
* `nodeStep_cases` — the callbacks of the node in these terms.

Along the way, every callback is shown to return.
-/

namespace AmrFramework.Monitoring

open DependencyOrder Runs

variable {r : Roster} {env : Env} {s s' : Procs} {n : String}

/-! ## Supervision steps

The kinds of steps, each with its guard and its outcome up to `Same`. `late` is the one that
never occurs where processes are owned, and it is there because `tick` collects any process on
record. Steps that make a child fail are given by a fall from the state in which the process has
been dealt with. -/

/-- A child may be launched: it is stopped, unfinished and its dependencies are
running, or its backoff is over. -/
def Launchable (r : Roster) (s : Procs) (n : String) : Prop :=
  ((s.child n).phase = .stopped ∧ (s.child n).completed = false ∧ depsAllRunning r s n = true) ∨
    (s.child n).phase = .backoff

/-- A launched child at time `t`, before its process is spawned. -/
def announce (s : Procs) (n : String) (t : Int) : Procs :=
  s.setState n { (s.child n).state with phase := .starting, phaseSinceNs := t }

@[simp] theorem announce_child (s : Procs) (n : String) (t : Int) :
    (announce s n t).child = Function.update s.child n
      { s.child n with
        state := { (s.child n).state with phase := .starting, phaseSinceNs := t } } :=
  Procs.setState_child ..

/-- The children after a launch. -/
theorem launch_child (r : Roster) (s : Procs) (n : String) (t : Int) (pid : Option Int) :
    ((announce s n t).spawn r n pid).child = Function.update s.child n
      { s.child n with
        state := { (s.child n).state with phase := .starting, phaseSinceNs := t }
        pid := pid.getD (s.child n).pid } := by
  rw [Procs.spawn_child, announce_child, Function.update_self, Function.update_idem]

/-- The children after the end of a oneshot child. -/
theorem finish_child (s : Procs) (n : String) (st : ChildState) :
    (((s.forget n).setState n st).complete n).child = Function.update s.child n
      { state := st, pid := -1, completed := true } := by
  rw [Procs.complete_child, Procs.setState_child, Procs.forget_child, Function.update_self,
    Function.update_self, Function.update_idem, Function.update_idem]

/-- What may be launched is not live. -/
theorem Launchable.not_live (h : Launchable r s n) : (s.child n).phase.live = false := by
  obtain ⟨h, -, -⟩ | h := h <;> rw [h] <;> rfl

theorem Launchable.ne_fatal (h : Launchable r s n) : (s.child n).phase ≠ .fatal := by
  intro hp
  obtain ⟨h, -, -⟩ | h := h <;> cases hp.symm.trans h

/-- **One supervision step** of the child `n`. `byReport` says whether a health report may
confirm a start: a timer alone confirms only children that are not gated on health and have a
process. -/
inductive SupStep (r : Roster) (byReport : Prop) : Procs → Procs → Prop
  | idle {s s' : Procs} (hsame : s.Same s') : SupStep r byReport s s'
  /-- running stably: the counters are cleared -/
  | stable {s s' : Procs} {n : String} (hn : n ∈ r.names)
      (hphase : (s.child n).phase = .running)
      (hsame : (s.setState n
        { (s.child n).state with restartsInWindow := 0, backoffStep := 0 }).Same s') :
      SupStep r byReport s s'
  /-- the exit of a process that should not have been there -/
  | late {s s' : Procs} {n : String} (hn : n ∈ r.names)
      (hlive : (s.child n).phase.live = false) (hpid : 0 < (s.child n).pid)
      (hsame : (s.forget n).Same s' ∨
        (s.child n).phase = .stopped ∧ ((s.forget n).complete n).Same s') :
      SupStep r byReport s s'
  | launched {s s' : Procs} {n : String} {t pid : Int} (hn : n ∈ r.names)
      (hready : Launchable r s n) (hpid : 0 < pid)
      (hsame : ((announce s n t).spawn r n (some pid)).Same s') : SupStep r byReport s s'
  /-- a failed spawn -/
  | stillborn {s s' : Procs} {n : String} {t : Int} (hn : n ∈ r.names)
      (hready : Launchable r s n)
      (hfalls : Falls r n .spawn ((announce s n t).spawn r n none) s') : SupStep r byReport s s'
  | confirm {s s' : Procs} {n : String} {t : Int} (hn : n ∈ r.names)
      (hphase : (s.child n).phase = .starting)
      (hwhy : (r.decl n).healthGated = false ∧ 0 < (s.child n).pid ∨ byReport)
      (hsame : (s.setState n
        { (s.child n).state with phase := .running, phaseSinceNs := t }).Same s') :
      SupStep r byReport s s'
  /-- a oneshot child has done its work -/
  | finished {s s' : Procs} {n : String} {t : Int} (hn : n ∈ r.names)
      (hlive : (s.child n).phase.live = true) (hpid : 0 < (s.child n).pid)
      (honeshot : (r.decl n).spec.oneshot = true)
      (hsame : (((s.forget n).setState n (finish (s.child n).state t)).complete n).Same s') :
      SupStep r byReport s s'
  | exited {s s' : Procs} {n : String} (hn : n ∈ r.names) (hpid : 0 < (s.child n).pid)
      (hfalls : Falls r n .spawn (s.forget n) s') : SupStep r byReport s s'
  | timedOut {s s' : Procs} {n : String} (hn : n ∈ r.names) (hpid : 0 < (s.child n).pid)
      (hphase : (s.child n).phase = .starting)
      (hfalls : Falls r n .spawn (s.kill n) s') : SupStep r byReport s s'
  /-- reported lost while running -/
  | lost {s s' : Procs} {n : String} (hn : n ∈ r.names)
      (hphase : (s.child n).phase = .running) (hfalls : Falls r n .kill s s') :
      SupStep r byReport s s'

/-- Sequences of supervision steps. -/
abbrev SupSteps (r : Roster) (byReport : Prop) : Procs → Procs → Prop :=
  Relation.ReflTransGen (SupStep r byReport)

/-! ## Launching

A launch is announced first: the child is `starting` before `posix_spawn` is called. If the call
fails, the child is born dead, and falls from there. -/

/-- What launching the child `n` comes to: a process on record, or a fall from `starting` if the
spawn has failed. -/
inductive Launches (r : Roster) (n : String) (s s' : Procs) : Prop
  | up {t pid : Int} (hpid : 0 < pid)
      (hsame : ((announce s n t).spawn r n (some pid)).Same s') : Launches r n s s'
  /-- born dead -/
  | stillborn {t : Int}
      (hfalls : Falls r n .spawn ((announce s n t).spawn r n none) s') : Launches r n s s'

/-- Once a launch is announced, it runs to its end. -/
theorem launch_launches (env : Env) (depth : Nat) {t : Int} {u : Procs}
    (h : ∃ s₁, feed r env (depth + 2) n .spawned u = some s₁ ∧ (announce s n t).Same s₁) :
    ∃ s', launch r env (feed r env (depth + 2)) n u = some s' ∧ Launches r n s s' := by
  obtain ⟨pid, s₂, hpid, hspawn, hlaunch⟩ := launch_spec env (depth + 1) h
  rw [hlaunch]
  obtain _ | pid := pid
  · have hphase : (s₂.child n).state.phase = .starting := by
      rw [hspawn.child]
      simp [announce]
    have hlive : (s₂.child n).state.phase.live = true := by
      rw [hphase]
      rfl
    obtain ⟨s', hs', hfalls⟩ := feed_falls (r := r) env depth
      (transition_exit hlive (Or.inl rfl)) (Or.inl rfl) hlive
    exact ⟨s', hs', .stillborn (hfalls.of_same hspawn)⟩
  · exact ⟨s₂, rfl, .up (hpid pid rfl) hspawn⟩

/-- The launch of what may be launched is a supervision step. -/
theorem Launches.supStep (byReport : Prop) (h : Launches r n s s') (hn : n ∈ r.names)
    (hready : Launchable r s n) : SupStep r byReport s s' := by
  cases h with
  | up hpid hsame => exact .launched hn hready hpid hsame
  | stillborn hfalls => exact .stillborn hn hready hfalls

/-- A stopped, unfinished child whose dependencies are running. -/
def Ready (r : Roster) (s : Procs) (n : String) : Prop :=
  (s.child n).phase = .stopped ∧ (s.child n).completed = false ∧ depsAllRunning r s n = true

/-- A round of `try_bring_up` launches the child if it is ready, and does nothing otherwise.
Readiness is judged on the state that earlier rounds have left, so a child may become ready
within the same pass. -/
theorem bringUp_cases (r : Roster) (env : Env) (s : Procs) (n : String) :
    ∃ s', bringUp r env s n = some s' ∧
      (¬ Ready r s n ∧ s' = s ∨ Ready r s n ∧ Launches r n s s') := by
  simp only [bringUp]
  split_ifs with hskip hdeps
  · refine ⟨s, rfl, Or.inl ⟨?_, rfl⟩⟩
    rintro ⟨hstopped, hundone, -⟩
    obtain hphase | hdone := hskip
    · exact hphase hstopped
    · rw [hundone] at hdone
      cases hdone
  · refine ⟨s, rfl, Or.inl ⟨?_, rfl⟩⟩
    rintro ⟨-, -, hup⟩
    rw [hup] at hdeps
    cases hdeps
  · rw [not_or, not_not, Bool.not_eq_true] at hskip
    rw [Bool.not_eq_true', Bool.not_eq_false] at hdeps
    obtain ⟨s', hs', hlaunch⟩ := launch_launches env 1 (feed_quiet (r := r) env 2
      (transition_spawned hskip.1) (by rw [hskip.1]; rfl) (by simp))
    exact ⟨s', hs', Or.inr ⟨⟨hskip.1, hskip.2, hdeps⟩, hlaunch⟩⟩

section Callbacks

variable (byReport : Prop)

/-- Once a launch is announced, it is a supervision step. -/
theorem launch_step (env : Env) (depth : Nat) {t : Int} {u : Procs} (hn : n ∈ r.names)
    (hready : Launchable r s n)
    (h : ∃ s₁, feed r env (depth + 2) n .spawned u = some s₁ ∧ (announce s n t).Same s₁) :
    ∃ s', launch r env (feed r env (depth + 2)) n u = some s' ∧ SupStep r byReport s s' := by
  obtain ⟨s', hs', hlaunch⟩ := launch_launches env depth h
  exact ⟨s', hs', hlaunch.supStep byReport hn hready⟩

/-- One round of `try_bring_up` is a supervision step. -/
theorem bringUp_step (env : Env) (s : Procs) (hn : n ∈ r.names) :
    ∃ s', bringUp r env s n = some s' ∧ SupStep r byReport s s' := by
  obtain ⟨s', hs', ⟨-, rfl⟩ | ⟨hready, hlaunch⟩⟩ := bringUp_cases r env s n
  · exact ⟨s', hs', .idle (.refl s')⟩
  · exact ⟨s', hs', hlaunch.supStep byReport hn (Or.inl hready)⟩

/-- **`try_bring_up` is a sequence of supervision steps**, one for each child of the bring-up
order. -/
theorem tryBringUp_steps (r : Roster) (env : Env) (s : Procs) :
    ∃ s', tryBringUp r env s = some s' ∧ SupSteps r byReport s s' := by
  refine foldlM_steps ?_ s
  intro n hn s
  obtain ⟨s', hs', hstep⟩ := bringUp_step byReport env s (r.perm.mem_iff.mp hn)
  exact ⟨s', hs', .single hstep⟩

/-- An expired backoff is a launch: `feed` executes the spawn at once. -/
theorem feedChild_due (env : Env) {s : Procs} (hphase : (s.child n).phase = .backoff)
    (hdue : env.nowNs s.asked ≥ (s.child n).state.resumeAtNs) :
    feedChild r env n .tick s = launch r env (feed r env 2) n
      (announce (s.ask env.nowNs).2 n (env.nowNs s.asked)) := by
  have hdied : died (s.child n).phase .starting = false := by
    rw [hphase]
    rfl
  simp only [feedChild, feedDepth]
  have hnot : ¬ ((r.decl n).spec.oneshot ∧ Event.tick = .exitedOk ∧
      Phase.starting = .stopped) := fun h => Event.noConfusion h.2.1
  rw [feed_succ (transition_tick hphase hdue)]
  simp only [hdied, if_neg hnot]
  change (if env.nowNs s.asked ≤ env.nowNs s.asked then _ else _) = _
  rw [if_pos (Int.le_refl _)]
  rfl

/-- The child that it launches has been announced already. -/
theorem feed_announced (env : Env) (s : Procs) (n : String) :
    ∃ s₁, feed r env 2 n .spawned (announce (s.ask env.nowNs).2 n (env.nowNs s.asked)) = some s₁ ∧
      (announce s n (env.nowNs s.asked)).Same s₁ := by
  have hstarted : ((announce (s.ask env.nowNs).2 n (env.nowNs s.asked)).child n).state.phase ≠
      .stopped := by
    simp [announce]
  obtain ⟨s₁, hs₁, hsame⟩ := feed_ignored (r := r) env 1
    (transition_spawned_ignored hstarted) Event.noConfusion
  exact ⟨s₁, hs₁, ((Procs.ask_same env.nowNs s).setState n _).trans hsame⟩

/-- The backoff part of a tick. -/
theorem tickBackoff_step (env : Env) (nowNs : Int) (hn : n ∈ r.names) (s : Procs) :
    ∃ s', tickBackoff r env nowNs n s = some s' ∧ SupStep r byReport s s' := by
  simp only [tickBackoff]
  split_ifs with hif
  · have hphase : (s.child n).state.phase = .backoff := hif.1
    by_cases hdue : env.nowNs s.asked ≥ (s.child n).state.resumeAtNs
    · rw [feedChild_due env hif.1 hdue]
      exact launch_step byReport env 0 hn (Or.inr hif.1) (feed_announced env s n)
    · obtain ⟨s', hs', hsame⟩ := feed_ignored (r := r) env 2 (transition_tick_early hphase hdue)
        Event.noConfusion
      exact ⟨s', hs', .idle hsame⟩
  · exact ⟨s, rfl, .idle (.refl s)⟩

/-- The timeout part of a tick. -/
theorem tickTimeout_step (env : Env) (nowNs : Int) (hn : n ∈ r.names) (s : Procs) :
    ∃ s', tickTimeout r env nowNs n s = some s' ∧ SupStep r byReport s s' := by
  simp only [tickTimeout]
  split_ifs with hif
  · obtain ⟨hphase, hpid, -⟩ := hif
    have hkill := killChild_same env s n
    have hphase' : ((killChild env n s).child n).state.phase = .starting := by
      rw [hkill.child]
      simp only [Procs.kill_child, Function.update_self]
      exact hphase
    have hlive : ((killChild env n s).child n).state.phase.live = true := by
      rw [hphase']
      rfl
    obtain ⟨s', hs', hfalls⟩ := feed_falls (r := r) env 1
      (transition_startTimeout hphase') (Or.inl rfl) hlive
    exact ⟨s', hs', .timedOut hn hpid hphase (hfalls.of_same hkill)⟩
  · exact ⟨s, rfl, .idle (.refl s)⟩

/-- The part of a tick for a process that is alive. -/
theorem tickAlive_step (env : Env) (nowNs : Int) (hn : n ∈ r.names) {s : Procs}
    (hpid : 0 < (s.child n).pid) :
    ∃ s', tickAlive r env nowNs n s = some s' ∧ SupStep r byReport s s' := by
  simp only [tickAlive]
  split_ifs with hstarting hgated hrunning
  · obtain ⟨s', hs', hsame⟩ := feed_quiet (r := r) env 2
      (transition_confirm hstarting (Or.inl rfl)) (by simp [died]) (by simp)
    exact ⟨s', hs', .confirm hn hstarting (Or.inl ⟨by simpa using hgated, hpid⟩) hsame⟩
  · exact ⟨s, rfl, .idle (.refl s)⟩
  · have hphase : (s.child n).state.phase = .running := hrunning.1
    obtain ⟨s', hs', hsame⟩ := feed_quiet (r := r) env 2 (transition_runningStable hphase)
      (by simp [died, hphase]) (by simp)
    exact ⟨s', hs', .stable hn hrunning.1 hsame⟩
  · exact ⟨s, rfl, .idle (.refl s)⟩

/-- The exit of a process under a child without a live phase. -/
theorem lateExit_step (env : Env) (hn : n ∈ r.names) {s u : Procs} (hu : s.Same u)
    (hpid : 0 < (s.child n).pid) (hlive : (s.child n).phase.live = false) {ev : Event}
    (hev : ev = .exitedCrash ∨ ev = .exitedOk) :
    ∃ s', feedChild r env n ev (u.forget n) = some s' ∧ SupStep r byReport s s' := by
  have hforget := hu.forget n
  have hstate : ((u.forget n).child n).state = (s.child n).state := by
    rw [hforget.child]
    simp
  have hlive' : ((u.forget n).child n).state.phase.live = false := by
    rw [hstate]
    exact hlive
  have hignored : transition (r.decl n).spec ((u.forget n).child n).state ev
      (env.nowNs (u.forget n).asked) = ({}, ((u.forget n).child n).state) :=
    transition_exit_ignored hlive' hev
  have hdied : died ((u.forget n).child n).phase ((u.forget n).child n).state.phase = false := by
    change died ((u.forget n).child n).state.phase _ = false
    cases ((u.forget n).child n).state.phase <;> rfl
  by_cases hdone : (r.decl n).spec.oneshot ∧ ev = .exitedOk ∧
      ((u.forget n).child n).state.phase = .stopped
  · -- a stopped oneshot child is marked completed
    have hstopped : (s.child n).phase = .stopped := by
      have hphase := hdone.2.2
      rw [hstate] at hphase
      exact hphase
    refine ⟨((u.forget n).ask env.nowNs).2.complete n, ?_, .late hn hlive hpid (Or.inr
      ⟨hstopped, (hforget.trans (Procs.ask_same env.nowNs _)).complete n⟩)⟩
    simp only [feedChild, feedDepth]
    rw [feed_succ hignored]
    simp only [hdied, if_pos hdone]
    have hself := Procs.setState_self ((u.forget n).ask env.nowNs).2 n
    change some ((((u.forget n).ask env.nowNs).2.setState n _).complete n) = _
    exact congrArg (fun s => some (Procs.complete s n)) hself
  · obtain ⟨s', hs', hsame⟩ := feed_quiet (r := r) env 2 hignored hdied hdone
    rw [Procs.setState_self] at hsame
    exact ⟨s', hs', .late hn hlive hpid (Or.inl (hforget.trans hsame))⟩

/-- The exit of a process, with either status, or its disappearance. -/
theorem exit_step (env : Env) (hn : n ∈ r.names) {s u : Procs} (hu : s.Same u)
    (hpid : 0 < (s.child n).pid) {ev : Event} (hev : ev = .exitedCrash ∨ ev = .exitedOk) :
    ∃ s', feedChild r env n ev (u.forget n) = some s' ∧ SupStep r byReport s s' := by
  rcases hlive : (s.child n).phase.live with _ | _
  · exact lateExit_step byReport env hn hu hpid hlive hev
  have hforget := hu.forget n
  have hstate : ((u.forget n).child n).state = (s.child n).state := by
    rw [hforget.child]
    simp
  have hlive' : ((u.forget n).child n).state.phase.live = true := by
    rw [hstate]
    exact hlive
  by_cases hdone : ev = .exitedOk ∧ (r.decl n).spec.oneshot = true
  · obtain ⟨rfl, honeshot⟩ := hdone
    refine ⟨(((u.forget n).ask env.nowNs).2.setState n
      (finish (s.child n).state (env.nowNs u.asked))).complete n, ?_,
      .finished hn hlive hpid honeshot (t := env.nowNs u.asked) ?_⟩
    · simp only [feedChild, feedDepth]
      rw [feed_succ (transition_finish hlive' honeshot), hstate]
      simp [honeshot, finish, died, execute]
      rfl
    · exact ((hforget.trans (Procs.ask_same env.nowNs _)).setState n _).complete n
  · have hfail : ev = .exitedCrash ∨ ev = .exitedOk ∧ (r.decl n).spec.oneshot = false := by
      obtain rfl | rfl := hev
      · exact Or.inl rfl
      · exact Or.inr ⟨rfl, by simpa using hdone⟩
    obtain ⟨s', hs', hfalls⟩ := feed_falls (r := r) env 1
      (transition_exit hlive' hfail) (Or.inl rfl) hlive'
    exact ⟨s', hs', .exited hn hpid (hfalls.of_same hforget)⟩

/-- The timers of a tick. -/
theorem timers_steps (env : Env) (nowNs : Int) (hn : n ∈ r.names) (s : Procs) :
    ∃ s', (tickBackoff r env nowNs n s).bind (tickTimeout r env nowNs n) = some s' ∧
      SupSteps r byReport s s' := by
  obtain ⟨s₁, hs₁, h₁⟩ := tickBackoff_step byReport env nowNs hn s
  obtain ⟨s₂, hs₂, h₂⟩ := tickTimeout_step byReport env nowNs hn s₁
  exact ⟨s₂, by rw [hs₁]; exact hs₂, .tail (.single h₁) h₂⟩

/-- The part of a tick for one child. -/
theorem tickChild_steps (env : Env) (nowNs : Int) (hn : n ∈ r.names) (s : Procs) :
    ∃ s', tickChild r env nowNs s n = some s' ∧ SupSteps r byReport s s' := by
  by_cases hpid : 0 < (s.child n).pid
  · have hask := Procs.ask_same env.waitpid s
    have hpid' : 0 < ((s.ask env.waitpid).2.child n).pid := hpid
    have hexit {ev : Event} (hev : ev = .exitedCrash ∨ ev = .exitedOk) :
        ∃ s', feedChild r env n ev ((s.ask env.waitpid).2.forget n) = some s' ∧
          SupSteps r byReport s s' := by
      obtain ⟨s', hs', h⟩ := exit_step byReport env hn hask hpid hev
      exact ⟨s', hs', .single h⟩
    simp only [tickChild]
    rw [if_pos hpid]
    rw [show s.ask env.waitpid = (env.waitpid s.asked, (s.ask env.waitpid).2) from rfl]
    cases env.waitpid s.asked with
    | exited ok =>
      cases ok
      · exact hexit (Or.inl rfl)
      · exact hexit (Or.inr rfl)
    | stillRunning =>
      obtain ⟨s₁, hs₁, h₁⟩ := tickAlive_step byReport env nowNs hn hpid'
      obtain ⟨s₂, hs₂, h₂⟩ := timers_steps byReport env nowNs hn s₁
      exact ⟨s₂, by rw [hs₁]; exact hs₂, (Relation.ReflTransGen.single (.idle hask)).trans
        (.head h₁ h₂)⟩
    | echild => exact hexit (Or.inl rfl)
    | failed =>
      obtain ⟨s₂, hs₂, h₂⟩ := timers_steps byReport env nowNs hn
        (s.ask env.waitpid).2
      exact ⟨s₂, hs₂, .head (.idle hask) h₂⟩
  · simp only [tickChild]
    rw [if_neg hpid]
    exact timers_steps byReport env nowNs hn s

/-- **A tick is a sequence of supervision steps**, whatever the answers are, and it returns. One
step for an exit, a confirmation or a stable period of each child, one for its backoff, one for
its timeout, and then those of the bring-up. -/
theorem tick_steps (r : Roster) (env : Env) (s : Procs) :
    ∃ s', tick r env s = some s' ∧ SupSteps r byReport s s' := by
  obtain ⟨s₁, hs₁, h₁⟩ := foldlM_steps (R := SupStep r byReport)
    (f := tickChild r env (env.nowNs s.asked)) (l := r.names)
    (fun n hn s => tickChild_steps byReport env _ hn s) (s.ask env.nowNs).2
  obtain ⟨s₂, hs₂, h₂⟩ := tryBringUp_steps byReport r env s₁
  refine ⟨s₂, ?_, .head (.idle (Procs.ask_same env.nowNs s)) (h₁.trans h₂)⟩
  change (r.names.foldlM (tickChild r env (env.nowNs s.asked)) (s.ask env.nowNs).2).bind
    (tryBringUp r env) = some s₂
  rw [hs₁]
  exact hs₂

end Callbacks

/-! ## Health signals

An alive signal confirms a start; a lost one makes a running child fail; in all other phases both
are ignored. They are kept apart from the other steps, since which signals a message gives rise
to matters to some of the properties. -/

/-- What one signal of the health feed does. A signal about a child in any other phase is
ignored, and so is one about a name that is no child's. -/
inductive HealthStep (r : Roster) : String × Bool → Procs → Procs → Prop
  | confirm {s s' : Procs} {n : String} {t : Int} (hn : n ∈ r.names)
      (hphase : (s.child n).phase = .starting)
      (hsame : (s.setState n
        { (s.child n).state with phase := .running, phaseSinceNs := t }).Same s') :
      HealthStep r (n, true) s s'
  | lost {s s' : Procs} {n : String} (hn : n ∈ r.names)
      (hphase : (s.child n).phase = .running) (hfalls : Falls r n .kill s s') :
      HealthStep r (n, false) s s'
  | ignored {signal : String × Bool} {s s' : Procs}
      (hwhy : signal.1 ∈ r.names →
        (s.child signal.1).phase ≠ if signal.2 then .starting else .running)
      (hsame : s.Same s') : HealthStep r signal s s'

/-- What a sequence of signals does. -/
inductive HealthSteps (r : Roster) : List (String × Bool) → Procs → Procs → Prop
  | done {s s' : Procs} (hsame : s.Same s') : HealthSteps r [] s s'
  | signal {s s₁ s' : Procs} {signal : String × Bool} {signals : List (String × Bool)}
      (hstep : HealthStep r signal s s₁) (hrest : HealthSteps r signals s₁ s') :
      HealthSteps r (signal :: signals) s s'

/-- Handling a signal is a health step. -/
theorem onHealth_step (r : Roster) (env : Env) (s : Procs) (signal : String × Bool) :
    ∃ s', onHealth r env s signal = some s' ∧ HealthStep r signal s s' := by
  obtain ⟨n, alive⟩ := signal
  simp only [onHealth]
  split_ifs with hn hok
  · obtain rfl : alive = true := hok
    by_cases hphase : (s.child n).state.phase = .starting
    · obtain ⟨s', hs', hsame⟩ := feed_quiet (r := r) env 2
        (transition_confirm hphase (Or.inr rfl)) (by simp [died]) (by simp)
      exact ⟨s', hs', .confirm hn hphase hsame⟩
    · obtain ⟨s', hs', hsame⟩ := feed_ignored (r := r) env 2
        (transition_confirm_ignored hphase (Or.inr rfl)) Event.noConfusion
      exact ⟨s', hs', .ignored (fun _ => hphase) hsame⟩
  · obtain rfl : alive = false := by simpa using hok
    by_cases hphase : (s.child n).state.phase = .running
    · have hlive : (s.child n).phase.live = true := by
        change (s.child n).state.phase.live = true
        rw [hphase]
        rfl
      obtain ⟨s', hs', hfalls⟩ := feed_falls (r := r) env 1 (transition_healthLost hphase)
        (Or.inr rfl) hlive
      exact ⟨s', hs', .lost hn hphase hfalls⟩
    · obtain ⟨s', hs', hsame⟩ := feed_ignored (r := r) env 2
        (transition_healthLost_ignored hphase) Event.noConfusion
      exact ⟨s', hs', .ignored (fun _ => hphase) hsame⟩
  · exact ⟨s, rfl, .ignored (fun h => absurd h hn) (.refl s)⟩

/-- **The signals of a message are handled one by one**, each in the state that the ones before
have left. -/
theorem onHealth_steps (r : Roster) (env : Env) (signals : List (String × Bool)) (s : Procs) :
    ∃ s', signals.foldlM (onHealth r env) s = some s' ∧ HealthSteps r signals s s' := by
  induction signals generalizing s with
  | nil => exact ⟨s, rfl, .done (.refl s)⟩
  | cons signal signals ih =>
    obtain ⟨s₁, hs₁, hstep⟩ := onHealth_step r env s signal
    obtain ⟨s', hs', hrest⟩ := ih s₁
    refine ⟨s', ?_, .signal hstep hrest⟩
    rw [List.foldlM_cons, hs₁]
    exact hs'

/-- A health step is a supervision step. -/
theorem HealthStep.supStep {signal : String × Bool} (h : HealthStep r signal s s') :
    SupStep r True s s' := by
  cases h with
  | confirm hn hphase hsame => exact .confirm hn hphase (Or.inr trivial) hsame
  | lost hn hphase hfalls => exact .lost hn hphase hfalls
  | ignored hwhy hsame => exact .idle hsame

theorem HealthSteps.supSteps {signals : List (String × Bool)} (h : HealthSteps r signals s s') :
    SupSteps r True s s' := by
  induction h with
  | done hsame => exact .single (.idle hsame)
  | signal hstep _ ih => exact .head hstep.supStep ih

/-! ## Teardown

SIGTERM, a grace period in which exits are collected, and SIGKILL for the rest. The state
machines are not told, so the only thing that changes is the record. -/

/-- The teardown of one process: it is gone when it is polled, or it is killed. -/
inductive TearStep : Procs → Procs → Prop
  | idle {s s' : Procs} (hsame : s.Same s') : TearStep s s'
  | forget {s s' : Procs} {n : String} (hpid : 0 < (s.child n).pid)
      (hsame : (s.forget n).Same s') : TearStep s s'
  | kill {s s' : Procs} {n : String} (hsame : (s.kill n).Same s') : TearStep s s'

/-- Sequences of teardown steps. -/
abbrev TearSteps : Procs → Procs → Prop := Relation.ReflTransGen TearStep

/-- One pass of the grace loop. -/
theorem graceLoop_steps (r : Roster) (env : Env) (rounds : Nat) (s : Procs) :
    TearSteps s (graceLoop r env rounds s) := by
  have hpass (l : List String) (x : Bool × Procs) :
      TearSteps x.2 (l.foldl (graceChild env) x).2 := by
    induction l generalizing x with
    | nil => exact .refl
    | cons n l ih =>
      refine .trans ?_ (ih _)
      unfold graceChild
      by_cases hpid : 0 < (x.2.child n).pid
      · rw [if_pos hpid]
        have hask := Procs.ask_same env.waitpid x.2
        dsimp only
        split
        · exact .single (.forget hpid (hask.forget n))
        · exact .single (.idle hask)
      · rw [if_neg hpid]
  induction rounds generalizing s with
  | zero => exact .refl
  | succ rounds ih =>
    unfold graceLoop
    dsimp only
    split
    · exact (hpass r.names (false, s)).trans (ih _)
    · exact hpass r.names (false, s)

/-- **A teardown is a sequence of teardown steps**, however long the processes take to exit. -/
theorem teardown_steps (r : Roster) (env : Env) (s : Procs) :
    TearSteps s (teardownChildren r env s) := by
  refine (graceLoop_steps r env 20 s).trans ?_
  simp only [teardownChildren]
  generalize graceLoop r env 20 s = s₁
  induction r.names generalizing s₁ with
  | nil => exact .refl
  | cons n l ih =>
    refine .trans ?_ (ih _)
    dsimp only
    split
    · exact .single (.kill (killChild_same env s₁ n))
    · exact .refl

/-- Killing leaves nothing on record, and brings nothing back. -/
theorem killAll_down (env : Env) (l : List String) (s : Procs) :
    ∀ m, m ∈ l ∨ (s.child m).pid ≤ 0 →
      ((l.foldl (fun s n => if 0 < (s.child n).pid then killChild env n s else s) s).child m).pid
        ≤ 0 := by
  induction l generalizing s with
  | nil => exact fun m hm => hm.resolve_left List.not_mem_nil
  | cons n l ih =>
    intro m hm
    refine ih _ m ?_
    dsimp only
    obtain hm | hm := hm
    · obtain rfl | hm := List.mem_cons.mp hm
      · right
        split
        · rw [(killChild_same env s m).child, Procs.kill_child, Function.update_self]
          exact dropPid_nonpos _
        · omega
      · exact Or.inl hm
    · right
      split
      · rw [(killChild_same env s n).child, Procs.kill_child]
        by_cases hmn : m = n
        · subst hmn
          rw [Function.update_self]
          exact dropPid_nonpos _
        · rw [Function.update_of_ne hmn]
          exact hm
      · exact hm

/-- **After a teardown no child has a process.** What has not exited in the grace period is
killed, and a process that is killed is dropped from the record. -/
theorem teardown_down (r : Roster) (env : Env) (s : Procs) {n : String} (hn : n ∈ r.names) :
    ((teardownChildren r env s).child n).pid ≤ 0 :=
  killAll_down env r.names _ n (Or.inl hn)

/-! ## The callbacks

The one place that looks at all callbacks. An invariant of the node is proved by
`nodeStep_cases`, from what it says of supervision steps and of teardowns. -/

/-- The log once a message has arrived. -/
def Procs.noteReport (s : Procs) (msg : List HealthStatus) : Procs :=
  { s with log := (msg.map Rec.status).reverse ++ s.log }

/-- **The callbacks of the node**, in terms of steps: an activation is a bring-up, a deactivation
is a teardown, a tick is a tick, and a message is noted in the log, evaluated by the feed, and
followed by the steps of its signals. -/
theorem nodeStep_cases {node node' : SupervisorNode} {cb : Callback}
    (h : NodeStep r env node cb node') :
    (cb = .onActivate ∧ node.tickTimer = false ∧ node'.tickTimer = true ∧
        node'.healthFeed = node.healthFeed ∧ SupSteps r False node.procs node'.procs) ∨
      (cb = .onDeactivate ∧ node'.tickTimer = false ∧ node'.healthFeed = node.healthFeed ∧
        TearSteps node.procs node'.procs ∧ ∀ n ∈ r.names, (node'.procs.child n).pid ≤ 0) ∨
      (cb = .tick ∧ node.tickTimer = true ∧ node'.tickTimer = true ∧
        node'.healthFeed = node.healthFeed ∧ SupSteps r False node.procs node'.procs) ∨
      ∃ msg, cb = .healthReport msg ∧ node'.tickTimer = node.tickTimer ∧
        node'.healthFeed = (dispatch node.healthFeed msg).1 ∧
        HealthSteps r (dispatch node.healthFeed msg).2 (node.procs.noteReport msg) node'.procs := by
  obtain ⟨henabled, hstep⟩ := h
  cases cb with
  | onActivate =>
    obtain ⟨s', hs', hsteps⟩ := tryBringUp_steps False r env node.procs
    simp only [step, hs'] at hstep
    obtain rfl := Option.some.inj hstep
    exact Or.inl ⟨rfl, henabled, rfl, rfl, hsteps⟩
  | onDeactivate =>
    obtain rfl := Option.some.inj hstep
    exact Or.inr (Or.inl ⟨rfl, rfl, rfl, teardown_steps r env _, fun n hn =>
      teardown_down r env _ hn⟩)
  | tick =>
    obtain ⟨s', hs', hsteps⟩ := tick_steps False r env node.procs
    simp only [step, hs'] at hstep
    obtain rfl := Option.some.inj hstep
    exact Or.inr (Or.inr (Or.inl ⟨rfl, henabled, henabled, rfl, hsteps⟩))
  | healthReport msg =>
    obtain ⟨s', hs', hsteps⟩ := onHealth_steps r env (dispatch node.healthFeed msg).2
      (node.procs.noteReport msg)
    have heq : onHealthReport r env msg node = some
        { node with procs := s', healthFeed := (dispatch node.healthFeed msg).1 } := by
      change ((dispatch node.healthFeed msg).2.foldlM (onHealth r env)
        (node.procs.noteReport msg)).bind _ = _
      rw [hs']
      rfl
    obtain rfl := Option.some.inj (heq.symm.trans hstep)
    exact Or.inr (Or.inr (Or.inr ⟨msg, rfl, rfl, rfl, hsteps⟩))

/-- Every callback that is enabled returns. -/
theorem nodeStep_total (r : Roster) (env : Env) {node : SupervisorNode} {cb : Callback}
    (h : enabled node cb) : ∃ node', NodeStep r env node cb node' := by
  cases cb with
  | onActivate =>
    obtain ⟨s', hs', -⟩ := tryBringUp_steps False r env node.procs
    exact ⟨{ node with procs := s', tickTimer := true }, h, by simp [step, hs']⟩
  | onDeactivate => exact ⟨_, h, rfl⟩
  | tick =>
    obtain ⟨s', hs', -⟩ := tick_steps False r env node.procs
    exact ⟨{ node with procs := s' }, h, by simp [step, hs']⟩
  | healthReport msg =>
    obtain ⟨s', hs', -⟩ := onHealth_steps r env (dispatch node.healthFeed msg).2
      (node.procs.noteReport msg)
    refine ⟨{ node with procs := s', healthFeed := (dispatch node.healthFeed msg).1 }, h, ?_⟩
    change ((dispatch node.healthFeed msg).2.foldlM (onHealth r env)
      (node.procs.noteReport msg)).bind _ = _
    rw [hs']
    rfl

end AmrFramework.Monitoring
