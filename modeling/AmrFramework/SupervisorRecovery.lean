import AmrFramework.HealthDelivery
import AmrFramework.ReadyChildren
import AmrFramework.SupervisorProcess

/-!
# Recovery

Whatever happened before: once nothing fails any more, the children come up. A
child that was not given up is relaunched when its backoff is over, and a stopped
one as soon as its dependencies are running, so that after two ticks for each
level of dependencies all are running (`recovers`).

* `Frame` — what is done to a child reaches its transitive dependents at most.
* `Onward` — while nothing fails, a child only gets further.
* `tick_onward` — how far it gets in one tick.
-/

namespace AmrFramework.Monitoring

open DependencyOrder Runs

variable {r : Roster} {env : Env} {s s' s'' : Procs} {n m : String}

/-! ## What an operation reaches

A frame rule for the supervisor. Whatever is done on behalf of `n` is done to `n` and to what
depends on it; so children that depend on nothing outside a set can be followed without looking
at the children outside it. -/

/-- An operation on `n`: questions are asked, and the children other than `n` and its transitive
dependents stay as they are. -/
structure Frame (r : Roster) (n : String) (s s' : Procs) : Prop where
  asked : s.asked ≤ s'.asked
  others : ∀ m, m ≠ n → m ∉ r.transitiveDependents n → s'.child m = s.child m

theorem Frame.refl (r : Roster) (n : String) (s : Procs) : Frame r n s s :=
  ⟨Nat.le_refl _, fun _ _ _ => rfl⟩

theorem Frame.trans (h : Frame r n s s') (h' : Frame r n s' s'') : Frame r n s s'' :=
  ⟨Nat.le_trans h.asked h'.asked, fun m hm hdep =>
    (h'.others m hm hdep).trans (h.others m hm hdep)⟩

/-- A change of `n` itself, whatever it is. -/
theorem Frame.of_child {c : ProcChild} (hasked : s.asked ≤ s'.asked)
    (hchild : s'.child = Function.update s.child n c) : Frame r n s s' := by
  refine ⟨hasked, fun m hm _ => ?_⟩
  rw [hchild, Function.update_of_ne hm]

/-- An operation on a transitive dependent is one on `n`, as the dependents of a dependent are
dependents of `n`. -/
theorem Frame.of_dependent (hn : n ∈ r.names) (hm : m ∈ r.transitiveDependents n)
    (h : Frame r m s s') : Frame r n s s' := by
  refine ⟨h.asked, fun k _ hdep => h.others k ?_ fun hk => ?_⟩
  · rintro rfl
    exact hdep hm
  · exact hdep (r.transitiveDependents_trans hn hm hk)

theorem ask_frame {α : Type} (answer : Nat → α) (s : Procs) : Frame r n s (s.ask answer).2 :=
  ⟨Nat.le_succ _, fun _ _ _ => rfl⟩

theorem setState_asked (s : Procs) (n : String) (st : ChildState) :
    (s.setState n st).asked = s.asked := by
  simp only [Procs.setState]
  split <;> rfl

theorem setState_frame (s : Procs) (n : String) (st : ChildState) : Frame r n s (s.setState n st) :=
  .of_child (setState_asked s n st).ge (Procs.setState_child ..)

theorem spawnChild_frame (s : Procs) (n : String) : Frame r n s (spawnChild r env n s).2 := by
  rw [spawnChild]
  cases hpid : env.posixSpawn s.asked with
  | none =>
    simp only [Procs.ask, hpid]
    exact ⟨Nat.le_succ _, fun _ _ _ => rfl⟩
  | some pid =>
    simp only [Procs.ask, hpid]
    exact ⟨Nat.le_succ _, fun m hm _ => Function.update_of_ne hm ..⟩

theorem awaitKilled_asked (env : Env) (retries : Nat) (s : Procs) :
    s.asked ≤ (awaitKilled env retries s).asked := by
  induction retries generalizing s with
  | zero => exact Nat.le_refl _
  | succ retries ih =>
    have hasked : s.asked ≤ (s.ask env.waitpid).2.asked := Nat.le_succ _
    rw [awaitKilled]
    dsimp only
    split
    · exact hasked
    · exact Nat.le_trans hasked (ih _)

theorem killChild_frame (s : Procs) (n : String) : Frame r n s (killChild env n s) := by
  refine ⟨?_, fun m hm _ => ?_⟩
  · rw [killChild]
    split
    · exact Nat.le_refl _
    · exact awaitKilled_asked ..
  · rw [(killChild_same env s n).child, Procs.kill_child, Function.update_of_ne hm]

/-- Operations on the transitive dependents, one after the other. The fold of a cascade is the
case that needs it. -/
theorem foldlM_frame {f : Procs → String → Option Procs} {l : List String} (hn : n ∈ r.names)
    (hl : ∀ m ∈ l, m ∈ r.transitiveDependents n)
    (hf : ∀ m ∈ l, ∀ s s', f s m = some s' → Frame r m s s')
    (h : l.foldlM f s = some s') : Frame r n s s' := by
  induction l generalizing s with
  | nil =>
    obtain rfl := Option.some.inj h
    exact .refl r n s
  | cons m l ih =>
    rw [List.foldlM_cons] at h
    obtain ⟨s₁, hs₁, hrest⟩ := Option.bind_eq_some_iff.mp h
    have hfirst := hf m (List.mem_cons_self ..) s s₁ hs₁
    exact (hfirst.of_dependent hn (hl m (List.mem_cons_self ..))).trans
      (ih (fun k hk => hl k (List.mem_cons_of_mem _ hk))
        (fun k hk => hf k (List.mem_cons_of_mem _ hk)) hrest)

theorem launch_frame {feed : String → Event → Procs → Option Procs}
    (hfeed : ∀ ev s s', feed n ev s = some s' → Frame r n s s')
    (h : launch r env feed n s = some s') : Frame r n s s' := by
  obtain ⟨s₁, hs₁, hrest⟩ := Option.bind_eq_some_iff.mp h
  have hspawn : Frame r n s₁ (spawnChild r env n s₁).2 := spawnChild_frame s₁ n
  have hannounced := (hfeed _ _ _ hs₁).trans hspawn
  dsimp only at hrest
  split at hrest
  · obtain rfl := Option.some.inj hrest
    exact hannounced
  · exact hannounced.trans (hfeed _ _ _ hrest)

/-- **What an event of `n` reaches**, by induction on the depth: a cascade feeds the transitive
dependents, whose own are among them. -/
theorem feed_frame {depth : Nat} {ev : Event} (hn : n ∈ r.names)
    (h : feed r env depth n ev s = some s') : Frame r n s s' := by
  induction depth generalizing n ev s s' with
  | zero => cases h
  | succ depth ih =>
    rcases ht : transition (r.decl n).spec (s.child n).state ev (env.nowNs s.asked) with ⟨a, st⟩
    rw [feed_succ ht] at h
    obtain ⟨s₃, hcascade, hexecute⟩ := Option.bind_eq_some_iff.mp h
    have hset : Frame r n s ((s.ask env.nowNs).2.setState n st) :=
      (ask_frame env.nowNs s).trans (setState_frame _ n st)
    have hevent : Frame r n s
        (if (r.decl n).spec.oneshot ∧ ev = .exitedOk ∧ st.phase = .stopped then
          ((s.ask env.nowNs).2.setState n st).complete n
        else (s.ask env.nowNs).2.setState n st) := by
      split
      · exact hset.trans (.of_child (Nat.le_refl _) (Procs.complete_child ..))
      · exact hset
    have hyields : Frame r n s s₃ := by
      split at hcascade
      · refine hevent.trans (foldlM_frame hn (fun m hm => List.mem_reverse.mp hm) ?_ hcascade)
        intro m hm u u' hyield
        obtain ⟨hmnames, -⟩ := (r.mem_transitiveDependents hn).mp (List.mem_reverse.mp hm)
        have hundone : Frame r m u (u.modify m fun c => { c with completed := false }) :=
          .of_child (Nat.le_refl _) rfl
        rw [yieldOne] at hyield
        split at hyield
        · obtain rfl := Option.some.inj hyield
          exact hundone
        · exact hundone.trans (ih hmnames hyield)
      · obtain rfl := Option.some.inj hcascade
        exact hevent
    refine hyields.trans ?_
    rw [execute] at hexecute
    split at hexecute
    · split at hexecute
      · exact launch_frame (fun _ _ _ hfeed => ih hn hfeed) hexecute
      · obtain rfl := Option.some.inj hexecute
        exact .refl r n s₃
    · obtain rfl := Option.some.inj hexecute
      exact killChild_frame s₃ n
    · obtain rfl := Option.some.inj hexecute
      exact killChild_frame s₃ n
    · obtain rfl := Option.some.inj hexecute
      exact .refl r n s₃

theorem tickBackoff_frame {nowNs : Int} (hn : n ∈ r.names)
    (h : tickBackoff r env nowNs n s = some s') : Frame r n s s' := by
  rw [tickBackoff] at h
  split at h
  · exact feed_frame hn h
  · obtain rfl := Option.some.inj h
    exact .refl r n s

theorem tickTimeout_frame {nowNs : Int} (hn : n ∈ r.names)
    (h : tickTimeout r env nowNs n s = some s') : Frame r n s s' := by
  rw [tickTimeout] at h
  split at h
  · exact (killChild_frame s n).trans (feed_frame hn h)
  · obtain rfl := Option.some.inj h
    exact .refl r n s

theorem tickAlive_frame {nowNs : Int} (hn : n ∈ r.names)
    (h : tickAlive r env nowNs n s = some s') : Frame r n s s' := by
  rw [tickAlive] at h
  split at h
  · split at h
    · exact feed_frame hn h
    · obtain rfl := Option.some.inj h
      exact .refl r n s
  · split at h
    · exact feed_frame hn h
    · obtain rfl := Option.some.inj h
      exact .refl r n s

/-- The part of a tick for one child: it polls, feeds what it finds, and looks at the two timers,
all for the same child. -/
theorem tickChild_frame {nowNs : Int} (hn : n ∈ r.names)
    (h : tickChild r env nowNs s n = some s') : Frame r n s s' := by
  have htimers : ∀ {u u' : Procs}, (tickBackoff r env nowNs n u).bind
      (tickTimeout r env nowNs n) = some u' → Frame r n u u' := by
    intro u u' hu
    obtain ⟨u₁, hu₁, hu'⟩ := Option.bind_eq_some_iff.mp hu
    exact (tickBackoff_frame hn hu₁).trans (tickTimeout_frame hn hu')
  rw [tickChild] at h
  dsimp only at h
  split at h
  · have hforget : Frame r n s ((s.ask env.waitpid).2.forget n) :=
      (ask_frame env.waitpid s).trans (.of_child (Nat.le_refl _) (Procs.forget_child ..))
    split at h
    · exact hforget.trans (feed_frame hn h)
    · obtain ⟨u, hu, hrest⟩ := Option.bind_eq_some_iff.mp h
      exact ((ask_frame env.waitpid s).trans (tickAlive_frame hn hu)).trans (htimers hrest)
    · exact hforget.trans (feed_frame hn h)
    · exact (ask_frame env.waitpid s).trans (htimers h)
  · exact htimers h

theorem bringUp_frame (hn : n ∈ r.names) (h : bringUp r env s n = some s') : Frame r n s s' := by
  rw [bringUp] at h
  split at h
  · obtain rfl := Option.some.inj h
    exact .refl r n s
  · split at h
    · obtain rfl := Option.some.inj h
      exact .refl r n s
    · exact launch_frame (fun _ _ _ hfeed => feed_frame hn hfeed) h

/-! ## One child, while nothing fails

`Env.Calm` fixes the answers from now on. Then a child only moves forward, `backoff → starting →
running` or `stopped → starting → running`, and it does so as soon as it is its turn: the lemmas
go through the parts of a tick in order. -/

/-- Nothing fails any more: every spawn succeeds, every process is still running, and time does not
go back. -/
structure Env.Calm (env : Env) : Prop where
  monotone : ∀ i j : Nat, i ≤ j → env.nowNs i ≤ env.nowNs j
  spawns : ∀ i, env.posixSpawn i ≠ none
  alive : ∀ i, env.waitpid i = .stillRunning

/-- A child that was not given up, has a process if it should have one, and is not to wait longer
than until `t`. -/
structure ProcChild.Coming (t : Int) (c : ProcChild) : Prop where
  undone : c.completed = false
  kept : c.phase ≠ .fatal
  attended : c.phase.live = true → 0 < c.pid
  due : c.phase = .backoff → c.state.resumeAtNs ≤ t

/-- As far as it was, or further: in the same phase, running, or starting if it was not running
already. -/
def Phase.Onward (before after : Phase) : Prop :=
  after = before ∨ after = .running ∨ (after = .starting ∧ before ≠ .running)

theorem Phase.Onward.trans {p q w : Phase} (h : p.Onward q) (h' : q.Onward w) : p.Onward w := by
  obtain rfl | rfl | ⟨rfl, hne⟩ := h'
  · exact h
  · exact .inr (.inl rfl)
  · refine .inr (.inr ⟨rfl, ?_⟩)
    rintro rfl
    obtain rfl | rfl | ⟨-, hrunning⟩ := h
    · exact hne rfl
    · exact hne rfl
    · exact hrunning rfl

/-- A child gets no less far, and stays one that is coming up by the time `t`. -/
structure ProcChild.Onward (t : Int) (c c' : ProcChild) : Prop where
  coming : c'.Coming t
  phase : c.phase.Onward c'.phase

/-- One child moves, and no other. While nothing fails there are no cascades, so this is all that
an operation on a child does. -/
structure Procs.Moves (t : Int) (n : String) (s s' : Procs) : Prop where
  onward : (s.child n).Onward t (s'.child n)
  others : ∀ m, m ≠ n → s'.child m = s.child m

variable {t : Int}

theorem Procs.Moves.refl (h : (s.child n).Coming t) : s.Moves t n s :=
  ⟨⟨h, .inl rfl⟩, fun _ _ => rfl⟩

theorem Procs.Moves.trans (h : s.Moves t n s') (h' : s'.Moves t n s'') : s.Moves t n s'' :=
  ⟨⟨h'.onward.coming, h.onward.phase.trans h'.onward.phase⟩, fun m hm =>
    (h'.others m hm).trans (h.others m hm)⟩

theorem Procs.Moves.of_child {c : ProcChild} (hchild : s'.child = Function.update s.child n c)
    (honward : (s.child n).Onward t c) : s.Moves t n s' := by
  refine ⟨?_, fun m hm => ?_⟩
  · rw [hchild, Function.update_self]
    exact honward
  · rw [hchild, Function.update_of_ne hm]

/-- A child is starting, with a process, and so it is further than it was in any phase but
`running`. -/
theorem ProcChild.Coming.launched {c : ProcChild} (h : c.Coming t) (hne : c.phase ≠ .running)
    {pid : Int} (hpid : 0 < pid) (time : Int) :
    c.Onward t { c with
      state := { c.state with phase := .starting, phaseSinceNs := time }, pid := pid } :=
  ⟨⟨h.undone, (fun hfatal => by cases hfatal), fun _ => hpid, (fun hwait => by cases hwait)⟩,
    .inr (.inr ⟨rfl, hne⟩)⟩

/-- A spawn that succeeds, as all do while nothing fails: the child is starting, and its new
process is on record. -/
theorem launch_up (hcalm : env.Calm) (depth : Nat) {u : Procs} {time : Int}
    (h : ∃ s₁, feed r env (depth + 1) n .spawned u = some s₁ ∧ (announce s n time).Same s₁) :
    ∃ s' pid, 0 < pid ∧ launch r env (feed r env (depth + 1)) n u = some s' ∧
      s'.child = Function.update s.child n { s.child n with
        state := { (s.child n).state with phase := .starting, phaseSinceNs := time }
        pid := pid } := by
  obtain ⟨s₁, hs₁, hsame⟩ := h
  obtain ⟨pid, hpid⟩ := Option.ne_none_iff_exists'.mp (hcalm.spawns s₁.asked)
  have hlaunch : launch r env (feed r env (depth + 1)) n u =
      some (spawnChild r env n s₁).2 := by
    rw [launch, hs₁]
    simp only [Option.bind_eq_bind, Option.bind_some, spawnChild, Procs.ask, hpid, if_true]
  have hspawned : (s₁.spawn r n (some pid.1)).Same (spawnChild r env n s₁).2 := by
    simp only [spawnChild, Procs.ask, hpid]
    exact ⟨rfl, rfl⟩
  refine ⟨_, pid.1, pid.2, hlaunch, ?_⟩
  rw [((hsame.spawn r n (some pid.1)).trans hspawned).child, launch_child]
  rfl

/-- The backoff of a child is over, so the tick launches it. The time at which it resumes was
noted before and is not later than the reading of the clock. -/
theorem tickBackoff_up (hcalm : env.Calm) {nowNs : Int} (hphase : (s.child n).phase = .backoff)
    (hnow : (s.child n).state.resumeAtNs ≤ nowNs) (hlater : nowNs ≤ env.nowNs s.asked) :
    ∃ s' pid, 0 < pid ∧ tickBackoff r env nowNs n s = some s' ∧
      s'.child = Function.update s.child n { s.child n with
        state := { (s.child n).state with phase := .starting, phaseSinceNs := env.nowNs s.asked }
        pid := pid } := by
  rw [tickBackoff, if_pos ⟨hphase, hnow⟩, feedChild_due env hphase (le_trans hnow hlater)]
  exact launch_up hcalm 1 (feed_announced env s n)

/-- No start takes too long that has just begun: the clock was read before the child was
announced, so that the difference is not positive. -/
theorem tickTimeout_early {nowNs : Int} (hpatient : 0 ≤ (r.policy n).startupTimeoutNs)
    (hlater : nowNs ≤ (s.child n).state.phaseSinceNs ∨ (s.child n).phase ≠ .starting) :
    tickTimeout r env nowNs n s = some s := by
  rw [tickTimeout, if_neg]
  rintro ⟨hphase, -, hlong⟩
  obtain hlater | hne := hlater
  · omega
  · exact hne hphase

/-- The timers of a child that is not starting: the backoff may be over, and then the timeout is
looked at in the state that the launch has left. -/
theorem timers_moves (hcalm : env.Calm) {nowNs : Int}
    (hpatient : 0 ≤ (r.policy n).startupTimeoutNs) (hnow : t ≤ nowNs)
    (hlater : nowNs ≤ env.nowNs s.asked) (hc : (s.child n).Coming t)
    (hne : (s.child n).phase ≠ .starting) :
    ∃ s', (tickBackoff r env nowNs n s).bind (tickTimeout r env nowNs n) = some s' ∧
      s.Moves t n s' ∧ ((s.child n).phase = .backoff → (s'.child n).phase = .starting) := by
  by_cases hphase : (s.child n).phase = .backoff
  · obtain ⟨s', pid, hpid, hs', hchild⟩ :=
      tickBackoff_up (n := n) hcalm hphase (le_trans (hc.due hphase) hnow) hlater
    have hself := congrFun hchild n
    rw [Function.update_self] at hself
    have hrunning : (s.child n).phase ≠ .running := by
      rw [hphase]
      decide
    refine ⟨s', ?_, .of_child hchild (hc.launched hrunning hpid _), fun _ => ?_⟩
    · rw [hs', Option.bind_some]
      refine tickTimeout_early hpatient (.inl ?_)
      rw [hself]
      exact hlater
    · rw [hself]
      rfl
  · have hbackoff : tickBackoff r env nowNs n s = some s := if_neg fun h => hphase h.1
    refine ⟨s, ?_, .refl hc, fun h => absurd h hphase⟩
    rw [hbackoff, Option.bind_some]
    exact tickTimeout_early hpatient (.inr hne)

/-- The process of a child is alive: it is confirmed if it was starting, and may be found to run
stably otherwise. -/
theorem tickAlive_moves (env : Env) (nowNs : Int) (s : Procs)
    (hgated : (r.decl n).healthGated = false)
    (hc : (s.child n).Coming t) :
    ∃ s', tickAlive r env nowNs n s = some s' ∧ s.Moves t n s' ∧
      ((s.child n).phase = .starting → (s'.child n).phase = .running) ∧
      ((s.child n).phase ≠ .starting → (s'.child n).phase = (s.child n).phase) := by
  rw [tickAlive]
  split_ifs with hstarting hnot hrunning
  · obtain ⟨s', hs', hsame⟩ := feed_quiet (r := r) env 2
      (transition_confirm hstarting (Or.inl rfl)) (by simp [died]) (by simp)
    have hchild := hsame.child.trans (Procs.setState_child ..)
    have hlive : (s.child n).phase.live = true := by
      rw [hstarting]
      rfl
    refine ⟨s', hs', .of_child hchild ?_, fun _ => ?_, fun hne => absurd hstarting hne⟩
    · exact ⟨⟨hc.undone, (fun hfatal => by cases hfatal), fun _ => hc.attended hlive,
        (fun hwait => by cases hwait)⟩, .inr (.inl rfl)⟩
    · rw [hchild, Function.update_self]
      rfl
  · rw [hgated] at hnot
    exact absurd rfl hnot
  · have hphase : (s.child n).state.phase = .running := hrunning.1
    obtain ⟨s', hs', hsame⟩ := feed_quiet (r := r) env 2 (transition_runningStable hphase)
      (by simp [died, hphase]) (by simp)
    have hchild := hsame.child.trans (Procs.setState_child ..)
    refine ⟨s', hs', .of_child hchild ⟨⟨hc.undone, hc.kept, hc.attended, hc.due⟩, .inl rfl⟩,
      fun hstart => absurd hstart hstarting, fun _ => ?_⟩
    rw [hchild, Function.update_self]
    rfl
  · exact ⟨s, rfl, .refl hc, fun hstart => absurd hstart hstarting, fun _ => rfl⟩

/-- **A tick for one child**: it is confirmed if it was starting, and starting again if it backed
off. -/
theorem tickChild_moves (hcalm : env.Calm) (hn : n ∈ r.names) {nowNs : Int}
    (hgated : (r.decl n).healthGated = false) (hpatient : 0 ≤ (r.policy n).startupTimeoutNs)
    (hnow : t ≤ nowNs) (hlater : nowNs ≤ env.nowNs s.asked) (hc : (s.child n).Coming t) :
    ∃ s', tickChild r env nowNs s n = some s' ∧ s.Moves t n s' ∧
      ((s.child n).phase = .starting → (s'.child n).phase = .running) ∧
      ((s.child n).phase = .backoff → (s'.child n).phase = .starting) := by
  by_cases hpid : 0 < (s.child n).pid
  · obtain ⟨v, hv, hmoves, hconfirmed, hkept⟩ :=
      tickAlive_moves env nowNs (s.ask env.waitpid).2 hgated hc
    have hlater' : nowNs ≤ env.nowNs v.asked := by
      have hasked : s.asked ≤ v.asked :=
        Nat.le_trans (Nat.le_succ _) (tickAlive_frame hn hv).asked
      exact le_trans hlater (hcalm.monotone _ _ hasked)
    have hne : (v.child n).phase ≠ .starting := by
      by_cases hstarting : (s.child n).phase = .starting
      · rw [hconfirmed hstarting]
        decide
      · rw [hkept hstarting]
        exact hstarting
    obtain ⟨s', hs', hmoves', hdue⟩ :=
      timers_moves hcalm hpatient hnow hlater' hmoves.onward.coming hne
    refine ⟨s', ?_, Procs.Moves.trans (s := s) ⟨hmoves.onward, hmoves.others⟩ hmoves', ?_, ?_⟩
    · rw [tickChild, if_pos hpid]
      simp only [Procs.ask, hcalm.alive, Option.bind_eq_bind] at hv ⊢
      rw [hv]
      exact hs'
    · intro hstarting
      have hrunning := hconfirmed hstarting
      obtain hsame | hdone | ⟨-, hnot⟩ := hmoves'.onward.phase
      · exact hsame.trans hrunning
      · exact hdone
      · exact absurd hrunning hnot
    · intro hbackoff
      refine hdue ((hkept ?_).trans hbackoff)
      exact fun hstarting => by cases hbackoff.symm.trans hstarting
  · have hne : (s.child n).phase ≠ .starting := by
      intro hstarting
      refine hpid (hc.attended ?_)
      rw [hstarting]
      rfl
    obtain ⟨s', hs', hmoves, hdue⟩ := timers_moves hcalm hpatient hnow hlater hc hne
    refine ⟨s', ?_, hmoves, fun hstarting => absurd hstarting hne, hdue⟩
    rw [tickChild, if_neg hpid]
    exact hs'

/-- A round of `try_bring_up`, which launches the child or leaves it alone. -/
theorem bringUp_moves (hcalm : env.Calm) (hc : (s.child n).Coming t)
    (h : bringUp r env s n = some s') : s.Moves t n s' := by
  rw [bringUp] at h
  split_ifs at h with hskip hdeps
  · obtain rfl := Option.some.inj h
    exact .refl hc
  · obtain rfl := Option.some.inj h
    exact .refl hc
  · have hstopped : (s.child n).phase = .stopped := by
      by_contra hne
      exact hskip (.inl hne)
    obtain ⟨s₂, pid, hpid, hlaunch, hchild⟩ := launch_up hcalm 2 (feed_quiet (r := r) env 2
      (transition_spawned hstopped) (by rw [hstopped]; rfl) (by simp))
    obtain rfl := Option.some.inj (hlaunch.symm.trans h)
    refine .of_child hchild (hc.launched ?_ hpid _)
    rw [hstopped]
    decide

/-! ## All children

The children of a set `u` that is closed under dependencies, all of them watched at once.
Operations on children outside `u` do not touch them, by the frame rule, and each operation
inside moves one child and leaves the others. -/

/-- The children of `u` may come up: what one depends on is among them, none waits for a health
report, and none is to be up sooner than at once. -/
structure Roster.SelfContained (r : Roster) (u : List String) : Prop where
  names : ∀ n ∈ u, n ∈ r.names
  deps : ∀ n ∈ u, ∀ d ∈ r.deps n, d ∈ u
  ungated : ∀ n ∈ u, (r.decl n).healthGated = false
  patient : ∀ n ∈ u, 0 ≤ (r.policy n).startupTimeoutNs

variable {u : List String}

/-- None of them depends on a child that is not one of them, directly or through others, so what
happens to such a child does not reach them. -/
theorem Roster.SelfContained.spared (hu : r.SelfContained u) (hn : n ∈ r.names) (hout : n ∉ u)
    (hm : m ∈ u) : m ≠ n ∧ m ∉ r.transitiveDependents n := by
  refine ⟨?_, fun hdep => ?_⟩
  · rintro rfl
    exact hout hm
  · obtain ⟨-, hpath⟩ := (r.mem_transitiveDependents hn).mp hdep
    exact hout (mem_of_transGen hu.deps hpath hm)

/-- All children of `u` get no less far. The relation composes, which is what the loops over the
children need. -/
structure Procs.Onward (u : List String) (t : Int) (s s' : Procs) : Prop where
  asked : s.asked ≤ s'.asked
  child : ∀ m ∈ u, (s.child m).Onward t (s'.child m)

theorem Procs.Onward.trans (h : s.Onward u t s') (h' : s'.Onward u t s'') : s.Onward u t s'' :=
  ⟨Nat.le_trans h.asked h'.asked, fun m hm =>
    ⟨(h'.child m hm).coming, (h.child m hm).phase.trans (h'.child m hm).phase⟩⟩

theorem Procs.Onward.refl (hc : ∀ m ∈ u, (s.child m).Coming t) : s.Onward u t s :=
  ⟨Nat.le_refl _, fun m hm => ⟨hc m hm, .inl rfl⟩⟩

/-- An operation on one child, of `u` or not. If it is one of `u`, it moves on; if not, all of
`u` are spared. -/
theorem Frame.onward (hu : r.SelfContained u) (hn : n ∈ r.names) (hframe : Frame r n s s')
    (hc : ∀ m ∈ u, (s.child m).Coming t) (hmoves : n ∈ u → s.Moves t n s') : s.Onward u t s' := by
  refine ⟨hframe.asked, fun m hm => ?_⟩
  by_cases hmn : m = n
  · subst hmn
    exact (hmoves hm).onward
  · have hsame : s'.child m = s.child m := by
      by_cases hin : n ∈ u
      · exact (hmoves hin).others m hmn
      · exact hframe.others m hmn (hu.spared hn hin hm).2
    rw [hsame]
    exact ⟨hc m hm, .inl rfl⟩

/-- Operations on one child after the other, each of which establishes its part `P`, and none of
which undoes what was established. -/
theorem foldlM_onward {f : Procs → String → Option Procs} {P : Procs → Prop} {l : List String}
    (hP : ∀ s s', s.Onward u t s' → P s → P s')
    (hf : ∀ n ∈ l, ∀ s, P s → (∀ m ∈ u, (s.child m).Coming t) →
      ∃ s', f s n = some s' ∧ s.Onward u t s')
    (hs : P s) (hc : ∀ m ∈ u, (s.child m).Coming t) :
    ∃ s', l.foldlM f s = some s' ∧ s.Onward u t s' := by
  induction l generalizing s with
  | nil => exact ⟨s, rfl, .refl hc⟩
  | cons n l ih =>
    obtain ⟨s₁, hs₁, honward⟩ := hf n (List.mem_cons_self ..) s hs hc
    obtain ⟨s', hs', hrest⟩ := ih (fun m hm => hf m (List.mem_cons_of_mem _ hm))
      (hP s s₁ honward hs) fun m hm => (honward.child m hm).coming
    refine ⟨s', ?_, honward.trans hrest⟩
    rw [List.foldlM_cons, hs₁]
    exact hs'

/-! ## A tick

A tick has two halves: every child is polled, and then `try_bring_up` starts the stopped ones
whose dependencies are running. The first half confirms what was starting, so the second finds
more dependencies running than before. -/

theorem Phase.Onward.of_running {q : Phase} (h : Phase.Onward .running q) : q = .running := by
  obtain h | h | ⟨-, hne⟩ := h
  · exact h
  · exact h
  · exact absurd rfl hne

/-- Only a child that backed off backs off. -/
theorem Phase.Onward.to_backoff {p : Phase} (h : p.Onward .backoff) : p = .backoff := by
  obtain h | h | ⟨h, -⟩ := h
  · exact h.symm
  · cases h
  · cases h

/-- **The first part of a tick**: who was starting is running, and nobody backs off. Every child
is polled once, and what is done for one leaves the others as they are or takes them on. -/
theorem tickChildren_onward (hcalm : env.Calm) (hu : r.SelfContained u) {nowNs : Int}
    (hnow : t ≤ nowNs) (hlater : nowNs ≤ env.nowNs s.asked)
    (hc : ∀ m ∈ u, (s.child m).Coming t) :
    ∃ s', r.names.foldlM (tickChild r env nowNs) s = some s' ∧ s.Onward u t s' ∧
      ∀ n ∈ u, (s'.child n).phase ≠ .backoff ∧
        ((s.child n).phase = .starting → (s'.child n).phase = .running) := by
  have hkept : ∀ s s' : Procs, s.Onward u t s' → nowNs ≤ env.nowNs s.asked →
      nowNs ≤ env.nowNs s'.asked :=
    fun _ _ honward hle => le_trans hle (hcalm.monotone _ _ honward.asked)
  have hchild : ∀ n ∈ r.names, ∀ s, nowNs ≤ env.nowNs s.asked →
      (∀ m ∈ u, (s.child m).Coming t) →
      ∃ s', tickChild r env nowNs s n = some s' ∧ s.Onward u t s' := by
    intro n hn s hle hc
    obtain ⟨s', hs', -⟩ := tickChild_steps False env nowNs hn s
    refine ⟨s', hs', (tickChild_frame hn hs').onward hu hn hc fun hin => ?_⟩
    obtain ⟨v, hv, hmoves, -⟩ :=
      tickChild_moves hcalm hn (hu.ungated n hin) (hu.patient n hin) hnow hle (hc n hin)
    obtain rfl := Option.some.inj (hv.symm.trans hs')
    exact hmoves
  obtain ⟨s', hs', honward⟩ := foldlM_onward hkept hchild hlater hc
  refine ⟨s', hs', honward, fun n hn => ?_⟩
  -- the child's own turn
  obtain ⟨before, after, hsplit⟩ := List.append_of_mem (hu.names n hn)
  have hmem : ∀ m, m ∈ before ∨ m ∈ after → m ∈ r.names := by
    intro m hm
    rw [hsplit, List.mem_append, List.mem_cons]
    exact hm.imp_right .inr
  obtain ⟨s₁, hs₁, honward₁⟩ :=
    foldlM_onward hkept (fun m hm => hchild m (hmem m (.inl hm))) hlater hc
  have hc₁ : ∀ m ∈ u, (s₁.child m).Coming t := fun m hm => (honward₁.child m hm).coming
  have hlater₁ := hkept s s₁ honward₁ hlater
  obtain ⟨s₂, hs₂, hmoves, hconfirmed, hdue⟩ := tickChild_moves hcalm (hu.names n hn)
    (hu.ungated n hn) (hu.patient n hn) hnow hlater₁ (hc₁ n hn)
  have honward₂ := (tickChild_frame (hu.names n hn) hs₂).onward hu (hu.names n hn) hc₁
    fun _ => hmoves
  obtain ⟨s₃, hs₃, honward₃⟩ := foldlM_onward hkept (fun m hm => hchild m (hmem m (.inr hm)))
    (hkept s₁ s₂ honward₂ hlater₁) fun m hm => (honward₂.child m hm).coming
  obtain rfl : s₃ = s' := by
    rw [hsplit, List.foldlM_append, hs₁] at hs'
    simp only [Option.bind_eq_bind, Option.bind_some, List.foldlM_cons, hs₂] at hs'
    exact Option.some.inj (hs₃.symm.trans hs')
  refine ⟨fun hbackoff => ?_, fun hstarting => ?_⟩
  · have hback₂ := (hbackoff ▸ (honward₃.child n hn).phase).to_backoff
    have hback₁ := (hback₂ ▸ hmoves.onward.phase).to_backoff
    cases hback₂.symm.trans (hdue hback₁)
  · have hphase₁ : (s₁.child n).phase = .starting ∨ (s₁.child n).phase = .running := by
      obtain h | h | ⟨h, -⟩ := (honward₁.child n hn).phase
      · exact .inl (h.trans hstarting)
      · exact .inr h
      · exact .inl h
    have hphase₂ : (s₂.child n).phase = .running := by
      obtain h | h := hphase₁
      · exact hconfirmed h
      · exact (h ▸ hmoves.onward.phase).of_running
    exact (hphase₂ ▸ (honward₃.child n hn).phase).of_running

/-- **A tick**: who was starting is running, and who has its dependencies running is starting.
With both halves, every tick takes the next child one phase on. -/
theorem tick_onward (hcalm : env.Calm) (hu : r.SelfContained u) (hnow : ∀ i, t ≤ env.nowNs i)
    (hc : ∀ m ∈ u, (s.child m).Coming t) :
    ∃ s', tick r env s = some s' ∧ s.Onward u t s' ∧ ∀ n ∈ u,
      ((s.child n).phase = .starting → (s'.child n).phase = .running) ∧
      ((∀ d ∈ r.deps n, (s.child d).phase = .running) → (s'.child n).phase.live = true) := by
  obtain ⟨s₁, hs₁, honward₁, hfurther⟩ := tickChildren_onward (s := (s.ask env.nowNs).2) hcalm hu
    (hnow s.asked) (hcalm.monotone _ _ (Nat.le_succ _)) hc
  have honward₁ : s.Onward u t s₁ :=
    ⟨Nat.le_trans (Nat.le_succ _) honward₁.asked, honward₁.child⟩
  have hc₁ : ∀ m ∈ u, (s₁.child m).Coming t := fun m hm => (honward₁.child m hm).coming
  obtain ⟨s', hs', honward₂⟩ : ∃ s', tryBringUp r env s₁ = some s' ∧ s₁.Onward u t s' := by
    refine foldlM_onward (P := fun _ => True) (fun _ _ _ h => h) ?_ trivial hc₁
    intro n hn s _ hc
    have hn : n ∈ r.names := r.perm.mem_iff.mp hn
    obtain ⟨s', hs', -⟩ := bringUp_cases r env s n
    exact ⟨s', hs', (bringUp_frame hn hs').onward hu hn hc fun hin =>
      bringUp_moves hcalm (hc n hin) hs'⟩
  have honward := honward₁.trans honward₂
  refine ⟨s', ?_, honward, fun n hn => ⟨fun hstarting => ?_, fun hdeps => ?_⟩⟩
  · change (r.names.foldlM (tickChild r env (env.nowNs s.asked)) (s.ask env.nowNs).2).bind
      (tryBringUp r env) = some s'
    rw [hs₁]
    exact hs'
  · have hrunning := (hfurther n hn).2 hstarting
    exact (hrunning ▸ (honward₂.child n hn).phase).of_running
  · have hcoming := (honward.child n hn).coming
    have hup : depsAllRunning r s' n = true := by
      refine List.all_eq_true.mpr fun d hd => ?_
      have hd' := hu.deps n hn d hd
      have hrunning := (hdeps d hd ▸ (honward.child d hd').phase).of_running
      simp [hu.names d hd', hrunning]
    cases hphase : (s'.child n).phase with
    | stopped =>
      have hready : Ready r s' n := ⟨hphase, hcoming.undone, hup⟩
      exact absurd hready (tryBringUp_ready hs' (hu.names n hn))
    | starting => rfl
    | running => rfl
    | backoff =>
      have hback := (hphase ▸ (honward₂.child n hn).phase).to_backoff
      exact absurd hback (hfurther n hn).1
    | fatal => exact absurd hphase hcoming.kept

/-! ## All ticks

Two ticks take the next child in bring-up order from stopped to running, since all it depends on
stands before it. By induction on the number of ticks, the first `k` children are up after `2 *
k` of them. -/

/-- How far the children are after `k` ticks, by their place in the bring-up order: by induction
on `k`, where a child waits for those that stand before it. -/
theorem ticks_onward (hcalm : env.Calm) (hu : r.SelfContained u) (hnow : ∀ i, t ≤ env.nowNs i)
    {node : SupervisorNode} (htimer : node.tickTimer = true)
    (hc : ∀ m ∈ u, (node.procs.child m).Coming t) (k : Nat) :
    ∃ node', Run (NodeStep r env) node (List.replicate k .tick) node' ∧
      node'.tickTimer = true ∧ (∀ m ∈ u, (node'.procs.child m).Coming t) ∧
      ∀ n ∈ u, (2 * r.topo.idxOf n + 1 ≤ k → (node'.procs.child n).phase.live = true) ∧
        (2 * r.topo.idxOf n + 2 ≤ k → (node'.procs.child n).phase = .running) := by
  induction k with
  | zero => exact ⟨node, .start, htimer, hc, fun n _ => ⟨by omega, by omega⟩⟩
  | succ k ih =>
    obtain ⟨node₁, hrun, htimer₁, hc₁, hfar⟩ := ih
    obtain ⟨s', hs', honward, hfurther⟩ := tick_onward hcalm hu hnow hc₁
    have hstep : NodeStep r env node₁ .tick { node₁ with procs := s' } := by
      refine ⟨htimer₁, ?_⟩
      rw [step, hs']
      rfl
    refine ⟨{ node₁ with procs := s' }, hrun.snoc hstep, htimer₁,
      fun m hm => (honward.child m hm).coming, fun n hn => ⟨fun hk => ?_, fun hk => ?_⟩⟩
    · refine (hfurther n hn).2 fun d hd => ?_
      have hn' : n ∈ r.topo := r.perm.mem_iff.mpr (hu.names n hn)
      have hlt := ((r.depsFirst.idxOf_lt hn' hd).resolve_left List.not_mem_nil).2
      exact (hfar d (hu.deps n hn d hd)).2 (by omega)
    · have hlive := (hfar n hn).1 (by omega)
      obtain hstarting | hrunning := (Phase.live_iff _).mp hlive
      · exact (hfurther n hn).1 hstarting
      · exact (hrunning ▸ (honward.child n hn).phase).of_running

/-- **Recovery.** In any run in which no activation finds a live child: from the state it has led
to, if nothing fails any more and every backoff is over, two ticks for each child bring all children
up that were not given up and are not finished, and up they stay. -/
theorem recovers (r : Roster) (env : Env) {h : List Callback} {node : SupervisorNode}
    (hr : Run (only (ColdStart r) (NodeStep r env)) (.configured r) h node)
    (htimer : node.tickTimer = true) (hu : r.SelfContained u)
    (hleft : ∀ n ∈ u, (node.procs.child n).phase ≠ .fatal ∧
      (node.procs.child n).completed = false)
    {calm : Env} (hcalm : calm.Calm)
    (hdue : ∀ n ∈ u, (node.procs.child n).phase = .backoff →
      (node.procs.child n).state.resumeAtNs ≤ calm.nowNs 0)
    {k : Nat} (hk : 2 * r.names.length ≤ k) :
    ∃ node', Run (NodeStep r calm) node (List.replicate k .tick) node' ∧
      ∀ n ∈ u, (node'.procs.child n).phase = .running ∧ 0 < (node'.procs.child n).pid := by
  have hattended : node.tickTimer = true → node.procs.Attended r := by
    refine hr.invariant (I := fun _ node => node.tickTimer = true → node.procs.Attended r) ?_ ?_
    · exact fun h => by cases h
    · exact fun _ _ _ _ h hstep => nodeStep_attended hstep.1 h hstep.2
  have hc : ∀ m ∈ u, (node.procs.child m).Coming (calm.nowNs 0) := fun m hm =>
    ⟨(hleft m hm).2, (hleft m hm).1, hattended htimer m (hu.names m hm), hdue m hm⟩
  obtain ⟨node', hrun, -, hcoming, hfar⟩ := ticks_onward hcalm hu
    (fun i => hcalm.monotone _ _ (Nat.zero_le i)) htimer hc k
  refine ⟨node', hrun, fun n hn => ?_⟩
  have hrunning : (node'.procs.child n).phase = .running := by
    refine (hfar n hn).2 ?_
    have hlt := List.idxOf_lt_length_iff.mpr (r.perm.mem_iff.mpr (hu.names n hn))
    rw [r.perm.length_eq] at hlt
    omega
  refine ⟨hrunning, (hcoming n hn).attended ?_⟩
  rw [hrunning]
  rfl

/-- A time at which all is well: the hour after the crash, one second for each question. -/
def calmHour : Env where
  nowNs i := 3600000000000 + i * 1000000000
  posixSpawn i := some ⟨200 + i, by omega⟩
  waitpid _ := .stillRunning

theorem calmHour_calm : calmHour.Calm where
  monotone i j hle := by
    simp only [calmHour]
    omega
  spawns _ := nofun
  alive _ := rfl

/-- The crash of "base" has brought "nav" down, too; six ticks later both are running. -/
theorem recovers_crash :
    ∃ node, Run (only (ColdStart navStack) (NodeStep navStack (scripted [(16, .exited false)])))
        (.configured navStack) [.tick, .tick, .tick, .onActivate] node ∧
      (node.procs.child "nav").phase = .stopped ∧
      ∃ node', Run (NodeStep navStack calmHour) node (List.replicate 6 .tick) node' ∧
        ∀ n ∈ ["base", "nav"],
          (node'.procs.child n).phase = .running ∧ 0 < (node'.procs.child n).pid := by
  obtain ⟨node, hr, hnode⟩ := Run.of_exec_any
    (restrict_only (ColdStart navStack) (advance_step navStack (scripted [(16, .exited false)])))
    (.configured navStack) [.onActivate, .tick, .tick, .tick]
    (fun node => node.tickTimer = true ∧ (node.procs.child "nav").phase = .stopped ∧
      (∀ n ∈ ["base", "nav"], (node.procs.child n).phase ≠ .fatal ∧
        (node.procs.child n).completed = false) ∧
      ∀ n ∈ ["base", "nav"], (node.procs.child n).phase = .backoff →
        (node.procs.child n).state.resumeAtNs ≤ calmHour.nowNs 0) (by decide)
  obtain ⟨htimer, hstopped, hleft, hdue⟩ := of_decide_eq_true hnode
  refine ⟨node, hr, hstopped, recovers navStack (scripted [(16, .exited false)]) hr htimer ?_
    hleft calmHour_calm hdue (by decide)⟩
  exact ⟨by decide, by decide, by decide, by decide⟩

end AmrFramework.Monitoring
