import AmrFramework.SupervisorNode

/-!
# What the supervisor's operations do

The operations of the node, read off once:

* `Procs.kill`, `Procs.spawn` — process operations without their questions to
  the operating system;
* `Cascaded` — what a cascade leaves: every transitive dependent has given way,
  everything else is as it was;
* `Falls` — a live child fails: budget, cascade, and what follows.

The lemmas `feed_*` say what feeding one event amounts to, up to the number of
questions asked (`Procs.Same`); each needs as much depth as the event can cost.
-/

namespace AmrFramework.Monitoring

open DependencyOrder Runs

/-- The pid of a child after `kill_child`. A pid that stood for no process is left as it is. -/
def dropPid (pid : Int) : Int := if pid ≤ 0 then pid else -1

theorem dropPid_nonpos (pid : Int) : dropPid pid ≤ 0 := by
  simp only [dropPid]
  split <;> omega

namespace Procs

/-! ## Up to the number of questions

The answers of the operating system are a function of the number of questions asked before. Two
states that differ in that number alone are the same for everything that is proved here, and
`Same` hides the difference, so that `kill` and `spawn` can be stated without their loops of
`waitpid`. -/

/-- The same children and the same log. Two such states may differ in the number of questions
asked, and so in the answers that they will get. -/
structure Same (s s' : Procs) : Prop where
  child : s'.child = s.child
  log : s'.log = s.log

/-- `kill_child` without its retries: nothing is done to a child without a process, and else the
pid is dropped and the kill is logged. -/
def kill (s : Procs) (n : String) : Procs :=
  if (s.child n).pid ≤ 0 then s
  else (s.modify n fun c => { c with pid := -1 }).record (.killed n (s.child n).pid)

/-- `spawn_child` with its answer given. A spawn that fails leaves the pid on record. -/
def spawn (r : Roster) (s : Procs) (n : String) (pid : Option Int) : Procs :=
  let s' := s.record (.spawnChild n (s.child n).pid (depsAllRunning r s n) pid)
  match pid with
  | none => s'
  | some pid => s'.modify n fun c => { c with pid := pid }

theorem Same.refl (s : Procs) : s.Same s := ⟨rfl, rfl⟩

theorem Same.trans {s t u : Procs} (h : s.Same t) (h' : t.Same u) : s.Same u :=
  ⟨h'.child.trans h.child, h'.log.trans h.log⟩

theorem ask_same {α : Type} (answer : Nat → α) (s : Procs) : s.Same (s.ask answer).2 :=
  ⟨rfl, rfl⟩

/-- Only the number of the next question can differ, so the second state is the first one with
another number. -/
theorem Same.exists_asked {s t : Procs} (h : s.Same t) : ∃ a, t = { s with asked := a } := by
  obtain ⟨child, asked, log⟩ := t
  obtain ⟨rfl, rfl⟩ := h
  exact ⟨asked, rfl⟩

theorem Same.setState {s t : Procs} (h : s.Same t) (n : String) (st : ChildState) :
    (s.setState n st).Same (t.setState n st) := by
  obtain ⟨a, rfl⟩ := h.exists_asked
  unfold Procs.setState
  dsimp only
  split <;> exact ⟨rfl, rfl⟩

theorem Same.kill {s t : Procs} (h : s.Same t) (n : String) : (s.kill n).Same (t.kill n) := by
  obtain ⟨a, rfl⟩ := h.exists_asked
  unfold Procs.kill
  dsimp only
  split <;> exact ⟨rfl, rfl⟩

theorem Same.spawn {s t : Procs} (h : s.Same t) (r : Roster) (n : String) (pid : Option Int) :
    (s.spawn r n pid).Same (t.spawn r n pid) := by
  obtain ⟨a, rfl⟩ := h.exists_asked
  cases pid <;> exact ⟨rfl, rfl⟩

theorem Same.complete {s t : Procs} (h : s.Same t) (n : String) :
    (s.complete n).Same (t.complete n) := by
  obtain ⟨a, rfl⟩ := h.exists_asked
  exact ⟨rfl, rfl⟩

theorem Same.forget {s t : Procs} (h : s.Same t) (n : String) :
    (s.forget n).Same (t.forget n) := by
  obtain ⟨a, rfl⟩ := h.exists_asked
  exact ⟨rfl, rfl⟩

/-! ## Children and log after each operation

The simp set of this module: what each operation writes to the children and what it adds to the
log, one equation each. Later proofs rewrite with these and never unfold an operation. -/

@[simp] theorem setState_child (s : Procs) (n : String) (st : ChildState) :
    (s.setState n st).child = Function.update s.child n { s.child n with state := st } := by
  unfold setState
  dsimp only
  split <;> rfl

theorem setState_log (s : Procs) (n : String) (st : ChildState) :
    (s.setState n st).log =
      if st.phase ≠ (s.child n).phase then .phase n (s.child n).phase st.phase :: s.log
      else s.log := by
  unfold setState
  dsimp only
  split <;> rfl

/-- A change of phase is noted. -/
theorem setState_log_ne {s : Procs} {n : String} {st : ChildState} {p : Phase}
    (hp : (s.child n).phase = p) (h : st.phase ≠ p) :
    (s.setState n st).log = .phase n p st.phase :: s.log := by
  subst hp
  rw [setState_log, if_pos h]

/-- Setting the state a child is in does nothing. -/
theorem setState_self (s : Procs) (n : String) : s.setState n (s.child n).state = s := by
  have hsame : s.modify n (fun c => { c with state := (s.child n).state }) = s := by
    change { s with child := Function.update s.child n (s.child n) } = s
    rw [Function.update_eq_self]
  simp only [setState]
  rw [hsame]
  exact if_neg fun h => h rfl

@[simp] theorem complete_child (s : Procs) (n : String) :
    (s.complete n).child = Function.update s.child n { s.child n with completed := true } := rfl

@[simp] theorem complete_log (s : Procs) (n : String) :
    (s.complete n).log = .completed n :: s.log := rfl

@[simp] theorem forget_child (s : Procs) (n : String) :
    (s.forget n).child = Function.update s.child n { s.child n with pid := -1 } := rfl

@[simp] theorem forget_log (s : Procs) (n : String) :
    (s.forget n).log = .gone n (s.child n).pid :: s.log := rfl

@[simp] theorem kill_child (s : Procs) (n : String) :
    (s.kill n).child =
      Function.update s.child n { s.child n with pid := dropPid (s.child n).pid } := by
  simp only [kill, dropPid]
  split
  · rw [Function.update_eq_self]
  · rfl

theorem kill_log (s : Procs) (n : String) :
    (s.kill n).log =
      (if (s.child n).pid ≤ 0 then [] else [.killed n (s.child n).pid]) ++ s.log := by
  simp only [kill]
  split <;> rfl

@[simp] theorem spawn_child (r : Roster) (s : Procs) (n : String) (pid : Option Int) :
    (s.spawn r n pid).child =
      Function.update s.child n { s.child n with pid := pid.getD (s.child n).pid } := by
  cases pid with
  | none => exact (Function.update_eq_self n s.child).symm
  | some pid => rfl

@[simp] theorem spawn_log (r : Roster) (s : Procs) (n : String) (pid : Option Int) :
    (s.spawn r n pid).log =
      .spawnChild n (s.child n).pid (depsAllRunning r s n) pid :: s.log := by
  cases pid <;> rfl

/-! ## What is logged

Several invariants are about the log. An operation is described by a property of the entries it
adds, and such descriptions compose. -/

/-- From `s` to `s'` only entries with `φ` have been logged. The log only ever grows at its
front. -/
def Logs (φ : Rec → Prop) (s s' : Procs) : Prop :=
  ∃ new, s'.log = new ++ s.log ∧ ∀ e ∈ new, φ e

namespace Logs

variable {φ ψ : Rec → Prop} {s t u : Procs}

theorem of_eq (h : t.log = s.log) : Logs φ s t :=
  ⟨[], h, fun e he => by cases he⟩

theorem cons {e : Rec} (h : t.log = e :: s.log) (he : φ e) : Logs φ s t :=
  ⟨[e], h, fun _ hmem => List.mem_singleton.mp hmem ▸ he⟩

theorem trans (h : Logs φ s t) (h' : Logs φ t u) : Logs φ s u := by
  obtain ⟨old, hold, hφ⟩ := h
  obtain ⟨new, hnew, hφ'⟩ := h'
  refine ⟨new ++ old, by rw [hnew, hold, List.append_assoc], ?_⟩
  intro e he
  obtain he | he := List.mem_append.mp he
  · exact hφ' e he
  · exact hφ e he

theorem trans_same (h : Logs φ s t) (h' : t.Same u) : Logs φ s u := h.trans (of_eq h'.log)

theorem imp (hφ : ∀ e, φ e → ψ e) (h : Logs φ s t) : Logs ψ s t := by
  obtain ⟨new, hnew, he⟩ := h
  exact ⟨new, hnew, fun e hmem => hφ e (he e hmem)⟩

theorem of_steps {R : Procs → Procs → Prop} (hR : ∀ s s', R s s' → Logs φ s s')
    (h : Relation.ReflTransGen R s t) : Logs φ s t := by
  induction h with
  | refl => exact of_eq rfl
  | tail _ hstep ih => exact ih.trans (hR _ _ hstep)

end Logs

/-- `setState` logs a change of phase at most, so one entry has to be looked at. -/
theorem setState_logs {φ : Rec → Prop} (s : Procs) {n : String} {st : ChildState}
    (hφ : st.phase ≠ (s.child n).phase → φ (.phase n (s.child n).phase st.phase)) :
    s.Logs φ (s.setState n st) := by
  have hlog := setState_log s n st
  split at hlog
  · next hne => exact .cons hlog (hφ hne)
  · exact .of_eq hlog

theorem kill_logs {φ : Rec → Prop} (s : Procs) {n : String}
    (hφ : φ (.killed n (s.child n).pid)) : s.Logs φ (s.kill n) := by
  have hlog := kill_log s n
  split at hlog
  · exact .of_eq hlog
  · exact .cons hlog hφ

end Procs

/-! ## Processes

`kill_child` sends a signal and polls until the process is gone, or gives up. Either way the pid
is dropped, so the polling does not matter. `spawn_child` depends on one answer alone, the result
of `fork`. -/

variable {r : Roster} {env : Env} {s s' : Procs} {n : String}

theorem awaitKilled_same (env : Env) (retries : Nat) (s : Procs) :
    s.Same (awaitKilled env retries s) := by
  induction retries generalizing s with
  | zero => exact .refl s
  | succ retries ih =>
    unfold awaitKilled
    dsimp only
    split
    · exact Procs.ask_same env.waitpid s
    · exact (Procs.ask_same env.waitpid s).trans (ih _)

theorem killChild_same (env : Env) (s : Procs) (n : String) :
    (s.kill n).Same (killChild env n s) := by
  obtain ⟨a, ha⟩ := (awaitKilled_same env 20 s).exists_asked
  simp only [killChild, Procs.kill]
  split
  · exact .refl s
  · rw [ha]
    exact ⟨rfl, rfl⟩

/-- What a call of `spawn_child` amounts to: the answer of the operating system, and the spawn
with this answer. -/
theorem spawnChild_same (r : Roster) (env : Env) (n : String) (s : Procs) :
    ∃ pid : Option Int, (∀ p, pid = some p → 0 < p) ∧
      (spawnChild r env n s).1 = pid.isSome ∧
      (s.spawn r n pid).Same (spawnChild r env n s).2 := by
  rcases h : env.posixSpawn s.asked with _ | ⟨pid, hpid⟩
  · refine ⟨none, ?_, ?_, ?_⟩
    · exact fun _ hp => by cases hp
    · simp [spawnChild, Procs.ask, h]
    · simp only [spawnChild, Procs.ask, h]
      exact ⟨rfl, rfl⟩
  · refine ⟨some pid, ?_, ?_, ?_⟩
    · exact fun p hp => Option.some.inj hp ▸ hpid
    · simp [spawnChild, Procs.ask, h]
    · simp only [spawnChild, Procs.ask, h]
      exact ⟨rfl, rfl⟩

/-! ## Feeding one event

`feed` runs a transition, stores the new state, and then does what the action asks for, which may
feed further events to other children. The lemmas treat the kinds of transitions that occur, by
what they set off: nothing, a kill, a fall. -/

/-- `feed` with its transition given: the state is stored, a completed oneshot child is marked, a
death cascades, and then the action is executed. -/
theorem feed_succ {depth : Nat} {ev : Event} {a : Action} {st : ChildState}
    (ht : transition (r.decl n).spec (s.child n).state ev (env.nowNs s.asked) = (a, st)) :
    feed r env (depth + 1) n ev s =
      (let s₁ := (s.ask env.nowNs).2.setState n st
       let s₂ := if (r.decl n).spec.oneshot ∧ ev = .exitedOk ∧ st.phase = .stopped then s₁.complete n
         else s₁
       (if died (s.child n).phase st.phase then cascadeYield r (feed r env depth) n s₂
         else some s₂).bind fun s₃ =>
           execute r env (feed r env depth) a (env.nowNs s.asked) n s₃) := by
  obtain rfl : (transition (r.decl n).spec (s.child n).state ev (env.nowNs s.asked)).1 = a := by
    rw [ht]
  obtain rfl : (transition (r.decl n).spec (s.child n).state ev (env.nowNs s.asked)).2 = st := by
    rw [ht]
  rcases hd : died (s.child n).phase
    (transition (r.decl n).spec (s.child n).state ev (env.nowNs s.asked)).2.phase with _ | _ <;>
  · simp only [feed, Procs.ask, hd]
    rfl

/-- A transition without an action, other than a death or the end of a oneshot
child, changes the state and nothing else. -/
theorem feed_quiet (env : Env) (depth : Nat) {ev : Event} {st : ChildState}
    (ht : transition (r.decl n).spec (s.child n).state ev (env.nowNs s.asked) = ({}, st))
    (hd : died (s.child n).phase st.phase = false)
    (hc : ¬ ((r.decl n).spec.oneshot ∧ ev = .exitedOk ∧ st.phase = .stopped)) :
    ∃ s', feed r env (depth + 1) n ev s = some s' ∧ (s.setState n st).Same s' := by
  refine ⟨(s.ask env.nowNs).2.setState n st, ?_, (Procs.ask_same env.nowNs s).setState n st⟩
  rw [feed_succ ht]
  simp only [if_neg hc, hd]
  rfl

/-- An event that the state machine ignores. Only the clock has been read. -/
theorem feed_ignored (env : Env) (depth : Nat) {ev : Event}
    (ht : transition (r.decl n).spec (s.child n).state ev (env.nowNs s.asked) =
      ({}, (s.child n).state))
    (hc : ev ≠ .exitedOk) : ∃ s', feed r env (depth + 1) n ev s = some s' ∧ s.Same s' := by
  have hd : died (s.child n).phase (s.child n).state.phase = false := by
    change died (s.child n).phase (s.child n).phase = false
    cases (s.child n).phase <;> rfl
  obtain ⟨s', hs', hsame⟩ := feed_quiet (r := r) (n := n) env depth ht hd fun h => hc h.2.1
  rw [Procs.setState_self] at hsame
  exact ⟨s', hs', hsame⟩

/-- A transition that asks for a kill, other than a death: the state is stored, and the process
is killed. -/
theorem feed_kill (env : Env) (depth : Nat) {ev : Event} {st : ChildState} {t : Int}
    (ht : transition (r.decl n).spec (s.child n).state ev (env.nowNs s.asked) =
      ({ kind := .kill, atNs := t }, st))
    (hd : died (s.child n).phase st.phase = false) (hc : ev ≠ .exitedOk) :
    ∃ s', feed r env (depth + 1) n ev s = some s' ∧ ((s.setState n st).kill n).Same s' := by
  refine ⟨killChild env n ((s.ask env.nowNs).2.setState n st), ?_, ?_⟩
  · rw [feed_succ ht]
    simp only [if_neg fun h : _ ∧ ev = .exitedOk ∧ _ => hc h.2.1, hd]
    rfl
  · exact (((Procs.ask_same env.nowNs s).setState n st).kill n).trans (killChild_same env _ n)

/-! ## Giving way

When a child dies, `cascade_yield` stops its dependents, from the last in bring-up order to the
first. Giving way never sets off another cascade of its own, which is why two levels of depth are
enough. -/

/-- A dependent that gives way at time `t`: a live one is killed and stopped, one that waits in
`backoff` is stopped, and any other one keeps its phase. In each case it is no longer marked as
completed. -/
def gaveWay (t : Int) (c : ProcChild) : ProcChild :=
  if c.phase.live then
    { state := { c.state with phase := .stopped, phaseSinceNs := t }
      pid := dropPid c.pid
      completed := false }
  else if c.phase = .backoff then
    { c with state := { c.state with phase := .stopped, phaseSinceNs := t }, completed := false }
  else { c with completed := false }

/-- What that adds to the log: a kill if there was a process, and a change of phase. -/
def yieldLog (m : String) (c : ProcChild) : List Rec :=
  if c.phase.live then
    (if c.pid ≤ 0 then [] else [.killed m c.pid]) ++ [.phase m c.phase .stopped]
  else if c.phase = .backoff then [.phase m .backoff .stopped]
  else []

/-- A dependent that gives way is stopped, unless it was `fatal`: no event of the cascade brings
back a child that was given up. -/
theorem gaveWay_phase (t : Int) (c : ProcChild) :
    (gaveWay t c).phase = .stopped ∨ (gaveWay t c).phase = .fatal := by
  simp only [gaveWay]
  split_ifs with hlive hbackoff
  · exact Or.inl rfl
  · exact Or.inl rfl
  · change c.phase = .stopped ∨ c.phase = .fatal
    cases hp : c.phase <;> simp_all [Phase.live]

/-- One dependent gives way, and nothing else happens. Its transition is not a death, so it
starts no cascade of its own. -/
theorem yieldOne_spec (r : Roster) (env : Env) (depth : Nat) (s : Procs) (m : String) :
    ∃ s' t, yieldOne (feed r env (depth + 1)) s m = some s' ∧
      s'.child = Function.update s.child m (gaveWay t (s.child m)) ∧
      s'.log = yieldLog m (s.child m) ++ s.log := by
  let s₀ := s.modify m fun c => { c with completed := false }
  have hself : s₀.child m = { s.child m with completed := false } := Function.update_self ..
  have hunfold : yieldOne (feed r env (depth + 1)) s m =
      if (s₀.child m).phase = .stopped ∨ (s₀.child m).phase = .fatal then some s₀
      else feed r env (depth + 1) m .depRestarting s₀ := rfl
  have hphase : (s₀.child m).phase = (s.child m).phase := by
    rw [hself]
    rfl
  have htwice (c : ProcChild) : Function.update s₀.child m c = Function.update s.child m c :=
    Function.update_idem ..
  by_cases hlive : (s.child m).phase.live = true
  · -- the state machine asks for a kill
    have hlive₀ : (s₀.child m).state.phase.live = true := by
      rw [← hlive, ← hphase]
      rfl
    have hstay : ¬ ((s₀.child m).phase = .stopped ∨ (s₀.child m).phase = .fatal) := by
      rw [hphase]
      rintro (h | h) <;> rw [h] at hlive <;> cases hlive
    obtain ⟨s', hs', hsame⟩ := feed_kill (r := r) (n := m) (s := s₀) env depth
      (transition_depRestarting_live hlive₀) (by simp [died]) Event.noConfusion
    refine ⟨s', env.nowNs s₀.asked, by rw [hunfold, if_neg hstay, hs'], ?_, ?_⟩
    · rw [hsame.child, gaveWay, if_pos hlive]
      simp [hself, htwice]
    · have hne : Phase.stopped ≠ (s.child m).phase := by
        intro h
        rw [← h] at hlive
        cases hlive
      rw [hsame.log, Procs.kill_log, Procs.setState_log_ne hphase hne, yieldLog, if_pos hlive]
      simp [hself]
      rfl
  by_cases hbackoff : (s.child m).phase = .backoff
  · have hbackoff₀ : (s₀.child m).state.phase = .backoff := hphase.trans hbackoff
    have hstay : ¬ ((s₀.child m).phase = .stopped ∨ (s₀.child m).phase = .fatal) := by
      rw [hphase, hbackoff]
      decide
    obtain ⟨s', hs', hsame⟩ := feed_quiet (r := r) (n := m) (s := s₀) env depth
      (transition_depRestarting_backoff hbackoff₀) (by simp [died]) (by simp)
    refine ⟨s', env.nowNs s₀.asked, by rw [hunfold, if_neg hstay, hs'], ?_, ?_⟩
    · rw [hsame.child, gaveWay, if_neg hlive, if_pos hbackoff]
      simp [hself, htwice]
    · rw [hsame.log, Procs.setState_log_ne (hphase.trans hbackoff) (by simp), yieldLog,
        if_neg hlive, if_pos hbackoff]
      rfl
  · -- stopped or fatal: only the mark is cleared
    have hgone : (s₀.child m).phase = .stopped ∨ (s₀.child m).phase = .fatal := by
      rw [hphase]
      cases hp : (s.child m).phase <;> simp_all [Phase.live]
    refine ⟨s₀, 0, by rw [hunfold, if_pos hgone], ?_, ?_⟩
    · rw [gaveWay, if_neg hlive, if_neg hbackoff]
      rfl
    · rw [yieldLog, if_neg hlive, if_neg hbackoff]
      rfl

/-- What a cascade from `n` leaves: its transitive dependents have given way,
everything else is as it was. -/
structure Cascaded (r : Roster) (n : String) (s s' : Procs) : Prop where
  child : ∃ t : String → Int, ∀ m, s'.child m =
    if m ∈ r.transitiveDependents n then gaveWay (t m) (s.child m) else s.child m
  log : s'.log =
    ((r.transitiveDependents n).flatMap fun m => yieldLog m (s.child m)) ++ s.log

/-- No child is its own transitive dependent, since the graph has no cycle. -/
theorem not_mem_transitiveDependents (r : Roster) (n : String) :
    n ∉ r.transitiveDependents n :=
  not_mem_scanAffected (List.mem_singleton_self n)

theorem transitiveDependents_nodup (r : Roster) (n : String) :
    (r.transitiveDependents n).Nodup :=
  (scanAffected_sublist r.topo [n]).nodup r.depsFirst.nodup

/-- A list of distinct dependents gives way, the last one first. By induction on the list; each
round leaves the others as they were. -/
theorem yieldAll_spec (r : Roster) (env : Env) (depth : Nat) (s : Procs) {l : List String}
    (hl : l.Nodup) :
    ∃ s', l.reverse.foldlM (yieldOne (feed r env (depth + 1))) s = some s' ∧
      (∃ t : String → Int, ∀ m, s'.child m =
        if m ∈ l then gaveWay (t m) (s.child m) else s.child m) ∧
      s'.log = (l.flatMap fun m => yieldLog m (s.child m)) ++ s.log := by
  -- the last of the list gives way first, so `a` finds the others done
  induction l with
  | nil => exact ⟨s, rfl, ⟨fun _ => 0, fun _ => rfl⟩, rfl⟩
  | cons a l ih =>
    obtain ⟨ha, hl⟩ := List.nodup_cons.mp hl
    obtain ⟨s₁, hs₁, ⟨t, hchild⟩, hlog⟩ := ih hl
    have ha₁ : s₁.child a = s.child a := by
      rw [hchild, if_neg ha]
    obtain ⟨s', ta, hs', hchild', hlog'⟩ := yieldOne_spec r env depth s₁ a
    refine ⟨s', ?_, ⟨Function.update t a ta, ?_⟩, ?_⟩
    · rw [List.reverse_cons, List.foldlM_append, hs₁]
      simpa using hs'
    · intro m
      by_cases hm : m = a
      · subst hm
        simp [hchild', ha₁]
      · rw [hchild', Function.update_of_ne hm, Function.update_of_ne hm, hchild]
        simp [hm]
    · rw [hlog', hlog, ha₁]
      simp

/-- **The cascade** runs to its end, and exactly the dependents give way. By induction on the
list of dependents: each is met in the state it had before the cascade, since the list has no
repetitions and giving way touches one child. -/
theorem cascadeYield_spec (r : Roster) (env : Env) (depth : Nat) (n : String) (s : Procs) :
    ∃ s', cascadeYield r (feed r env (depth + 1)) n s = some s' ∧ Cascaded r n s s' := by
  obtain ⟨s', hs', hchild, hlog⟩ :=
    yieldAll_spec r env depth s (transitiveDependents_nodup r n)
  exact ⟨s', hs', hchild, hlog⟩

/-! ## Failing

Every failure goes through `enter_backoff`, whatever event brought it about: the restart budget
decides between `backoff` and `fatal`. `Falls` has one case for each way this can end, so that
invariants are proved by one case analysis and not once per event. -/

/-- The live child `n` fails: the budget decides between `backoff` and `fatal`,
the dependents give way, and then the process is killed, or spawned again at
once (`respawn`), or neither. -/
inductive Falls (r : Roster) (n : String) : ActionKind → Procs → Procs → Prop
  | fatal {kind : ActionKind} {s s₁ s' : Procs} {t : Int}
      (hlive : (s.child n).phase.live = true)
      (hbudget : (s.child n).state.restartsInWindow + 1 > (r.policy n).maxRestarts)
      (hcascade : Cascaded r n
        (s.setState n (enterBackoff (r.policy n) (s.child n).state t kind).2) s₁)
      (hsame : (s₁.kill n).Same s') : Falls r n kind s s'
  | kill {s s₁ s' : Procs} {t : Int}
      (hlive : (s.child n).phase.live = true)
      (hbudget : ¬ (s.child n).state.restartsInWindow + 1 > (r.policy n).maxRestarts)
      (hcascade : Cascaded r n
        (s.setState n (enterBackoff (r.policy n) (s.child n).state t .kill).2) s₁)
      (hsame : (s₁.kill n).Same s') : Falls r n .kill s s'
  | wait {s s₁ s' : Procs} {t : Int}
      (hlive : (s.child n).phase.live = true)
      (hbudget : ¬ (s.child n).state.restartsInWindow + 1 > (r.policy n).maxRestarts)
      (hcascade : Cascaded r n
        (s.setState n (enterBackoff (r.policy n) (s.child n).state t .spawn).2) s₁)
      (hsame : s₁.Same s') : Falls r n .spawn s s'
  | respawn {s s₁ s' : Procs} {t : Int} {pid : Option Int}
      (hlive : (s.child n).phase.live = true)
      (hbudget : ¬ (s.child n).state.restartsInWindow + 1 > (r.policy n).maxRestarts)
      (hbackoff : backoffNs (r.policy n) (s.child n).state.backoffStep ≤ 0)
      (hcascade : Cascaded r n
        (s.setState n (enterBackoff (r.policy n) (s.child n).state t .spawn).2) s₁)
      (hpid : ∀ p, pid = some p → 0 < p)
      (hsame : (s₁.spawn r n pid).Same s') : Falls r n .spawn s s'

theorem Cascaded.of_same {s t u : Procs} (hs : s.Same t) (h : Cascaded r n t u) :
    Cascaded r n s u := by
  obtain ⟨a, rfl⟩ := hs.exists_asked
  exact ⟨h.child, h.log⟩

/-- The source of a cascade is not touched by it. -/
theorem Cascaded.child_self (h : Cascaded r n s s') : s'.child n = s.child n := by
  obtain ⟨t, ht⟩ := h.child
  rw [ht, if_neg (not_mem_transitiveDependents r n)]

/-- `launch` once its announcement has led to a state like `t`: the child is spawned from there,
and if that fails the crash is fed. -/
theorem launch_spec (env : Env) {t : Procs} (depth : Nat)
    (h : ∃ s₁, feed r env (depth + 1) n .spawned s = some s₁ ∧ t.Same s₁) :
    ∃ (pid : Option Int) (s₂ : Procs), (∀ p, pid = some p → 0 < p) ∧ (t.spawn r n pid).Same s₂ ∧
      launch r env (feed r env (depth + 1)) n s =
        if pid.isSome then some s₂ else feed r env (depth + 1) n .exitedCrash s₂ := by
  obtain ⟨s₁, hs₁, hsame⟩ := h
  obtain ⟨pid, hpid, hok, hspawn⟩ := spawnChild_same r env n s₁
  refine ⟨pid, (spawnChild r env n s₁).2, hpid, (hsame.spawn r n pid).trans hspawn, ?_⟩
  rw [launch, hs₁]
  change (if (spawnChild r env n s₁).1 then some (spawnChild r env n s₁).2
    else feed r env (depth + 1) n .exitedCrash (spawnChild r env n s₁).2) = _
  rw [hok]

/-- A live child fails, and the kind of action tells what follows the cascade. This is the one
place where the budget, the backoff and the cascade are put together. -/
theorem feed_falls (env : Env) (depth : Nat) {ev : Event} {kind : ActionKind}
    (ht : transition (r.decl n).spec (s.child n).state ev (env.nowNs s.asked) =
      enterBackoff (r.policy n) (s.child n).state (env.nowNs s.asked) kind)
    (hkind : kind = .spawn ∨ kind = .kill) (hlive : (s.child n).phase.live = true) :
    ∃ s', feed r env (depth + 2) n ev s = some s' ∧ Falls r n kind s s' := by
  have hdied {p : Phase} (hp : p = .backoff ∨ p = .fatal) : died (s.child n).phase p = true := by
    cases hph : (s.child n).phase <;> rcases hp with rfl | rfl <;> simp_all [died, Phase.live]
  have hnot {p : Phase} (hp : p = .backoff ∨ p = .fatal) :
      ¬ ((r.decl n).spec.oneshot ∧ ev = .exitedOk ∧ p = .stopped) := by
    rintro ⟨-, -, rfl⟩
    obtain hp | hp := hp <;> cases hp
  obtain ⟨s₁, hs₁, hcascade⟩ := cascadeYield_spec r env depth n ((s.ask env.nowNs).2.setState n
    (enterBackoff (r.policy n) (s.child n).state (env.nowNs s.asked) kind).2)
  have hcascade := hcascade.of_same ((Procs.ask_same env.nowNs s).setState n _)
  -- within budget, what follows is decided by the action and by the backoff
  by_cases hbudget : (s.child n).state.restartsInWindow + 1 > (r.policy n).maxRestarts
  · have he := enterBackoff_fatal (env.nowNs s.asked) kind hbudget
    refine ⟨killChild env n s₁, ?_, .fatal hlive hbudget hcascade (killChild_same env s₁ n)⟩
    rw [he] at hs₁
    rw [feed_succ (ht.trans he)]
    simp only [if_neg (hnot (Or.inr rfl)), hdied (Or.inr rfl), if_true, hs₁]
    rfl
  have he := enterBackoff_backoff (env.nowNs s.asked) kind hbudget
  obtain rfl | rfl := hkind
  · rw [he] at hs₁
    have hphase : (s₁.child n).state.phase = .backoff := by
      rw [hcascade.child_self, he]
      simp
    have hfeed : feed r env (depth + 2) n ev s =
        if backoffNs (r.policy n) (s.child n).state.backoffStep ≤ 0 then
          launch r env (feed r env (depth + 1)) n s₁ else some s₁ := by
      rw [feed_succ (ht.trans he)]
      simp only [if_neg (hnot (Or.inl rfl)), hdied (Or.inl rfl), if_true, hs₁]
      change (if env.nowNs s.asked + backoffNs (r.policy n) (s.child n).state.backoffStep ≤
        env.nowNs s.asked then launch r env (feed r env (depth + 1)) n s₁ else some s₁) = _
      exact if_congr (by omega) rfl rfl
    by_cases hback : backoffNs (r.policy n) (s.child n).state.backoffStep ≤ 0
    · -- the backoff is over before it has begun
      obtain ⟨pid, s₂, hpid, hspawn, hlaunch⟩ := launch_spec (n := n) env depth
        (feed_ignored (r := r) (s := s₁) env depth
          (transition_spawned_ignored (by rw [hphase]; decide)) Event.noConfusion)
      rw [hfeed, if_pos hback, hlaunch]
      obtain _ | pid := pid
      · have hphase₂ : (s₂.child n).state.phase.live = false := by
          rw [hspawn.child]
          simp [hphase, Phase.live]
        obtain ⟨s₃, hs₃, hsame⟩ := feed_ignored (r := r) (s := s₂) (n := n) env depth
          (transition_exit_ignored hphase₂ (Or.inl rfl)) Event.noConfusion
        exact ⟨s₃, hs₃, .respawn hlive hbudget hback hcascade hpid (hspawn.trans hsame)⟩
      · exact ⟨s₂, rfl, .respawn hlive hbudget hback hcascade hpid hspawn⟩
    · exact ⟨s₁, by rw [hfeed, if_neg hback], .wait hlive hbudget hcascade (.refl s₁)⟩
  · refine ⟨killChild env n s₁, ?_, .kill hlive hbudget hcascade (killChild_same env s₁ n)⟩
    rw [he] at hs₁
    rw [feed_succ (ht.trans he)]
    simp only [if_neg (hnot (Or.inl rfl)), hdied (Or.inl rfl), if_true, hs₁]
    rfl

theorem Falls.of_same {kind : ActionKind} {s t u : Procs} (hs : s.Same t)
    (h : Falls r n kind t u) : Falls r n kind s u := by
  obtain ⟨a, rfl⟩ := hs.exists_asked
  have hset (st : ChildState) := hs.setState n st
  cases h with
  | fatal hlive hbudget hcascade hsame =>
    exact .fatal hlive hbudget (hcascade.of_same (hset _)) hsame
  | kill hlive hbudget hcascade hsame =>
    exact .kill hlive hbudget (hcascade.of_same (hset _)) hsame
  | wait hlive hbudget hcascade hsame =>
    exact .wait hlive hbudget (hcascade.of_same (hset _)) hsame
  | respawn hlive hbudget hbackoff hcascade hpid hsame =>
    exact .respawn hlive hbudget hbackoff (hcascade.of_same (hset _)) hpid hsame

/-! What a fall leaves behind. -/

/-- Nothing but the source and its dependents is touched, and the dependents only give way. -/
theorem Falls.others {kind : ActionKind} (h : Falls r n kind s s') :
    ∃ t : String → Int, ∀ m, m ≠ n → s'.child m =
      if m ∈ r.transitiveDependents n then gaveWay (t m) (s.child m) else s.child m := by
  have hcascade {st : ChildState} {s₁ : Procs} (h : Cascaded r n (s.setState n st) s₁) :
      ∃ t : String → Int, ∀ m, m ≠ n → s₁.child m =
        if m ∈ r.transitiveDependents n then gaveWay (t m) (s.child m) else s.child m := by
    obtain ⟨t, ht⟩ := h.child
    refine ⟨t, ?_⟩
    intro m hm
    rw [ht, Procs.setState_child, Function.update_of_ne hm]
  cases h with
  | fatal _ _ h hsame | kill _ _ h hsame =>
    obtain ⟨t, ht⟩ := hcascade h
    refine ⟨t, ?_⟩
    intro m hm
    rw [hsame.child, Procs.kill_child, Function.update_of_ne hm, ht m hm]
  | wait _ _ h hsame =>
    obtain ⟨t, ht⟩ := hcascade h
    exact ⟨t, fun m hm => by rw [hsame.child, ht m hm]⟩
  | respawn _ _ _ h _ hsame =>
    obtain ⟨t, ht⟩ := hcascade h
    refine ⟨t, ?_⟩
    intro m hm
    rw [hsame.child, Procs.spawn_child, Function.update_of_ne hm, ht m hm]

/-- The state a fall leads to is the one that `enterBackoff` computes. What follows changes
processes, and not the state. -/
theorem Falls.state {kind : ActionKind} (h : Falls r n kind s s') :
    ∃ t, (s'.child n).state = (enterBackoff (r.policy n) (s.child n).state t kind).2 ∧
      (s'.child n).completed = (s.child n).completed := by
  cases h with
  | @fatal _ _ _ _ t _ _ h hsame | @kill _ _ _ t _ _ h hsame =>
    refine ⟨t, ?_⟩
    rw [hsame.child, Procs.kill_child, Function.update_self, h.child_self, Procs.setState_child,
      Function.update_self]
    exact ⟨rfl, rfl⟩
  | @wait _ _ _ t _ _ h hsame =>
    refine ⟨t, ?_⟩
    rw [hsame.child, h.child_self, Procs.setState_child, Function.update_self]
    exact ⟨rfl, rfl⟩
  | @respawn _ _ _ t _ _ _ _ h _ hsame =>
    refine ⟨t, ?_⟩
    rw [hsame.child, Procs.spawn_child, Function.update_self, h.child_self, Procs.setState_child,
      Function.update_self]
    exact ⟨rfl, rfl⟩

/-- What has fallen is in `backoff` or `fatal`, also if it was spawned again at once. -/
theorem Falls.phase {kind : ActionKind} (h : Falls r n kind s s') :
    (s'.child n).phase = .backoff ∨ (s'.child n).phase = .fatal := by
  obtain ⟨t, hstate, -⟩ := h.state
  simp only [ProcChild.phase]
  rw [hstate]
  exact enterBackoff_phase ..

/-- The fall of `n` ends in an immediate respawn: a spawn is asked for, the budget allows it, and
the backoff is not positive. -/
def Respawns (r : Roster) (s : Procs) (n : String) (kind : ActionKind) : Prop :=
  kind = .spawn ∧ ¬ (s.child n).state.restartsInWindow + 1 > (r.policy n).maxRestarts ∧
    backoffNs (r.policy n) (s.child n).state.backoffStep ≤ 0

/-- An entry that a fall of `n` may add to the log: about `n` or a dependent, and no spawn unless
the fall respawns. -/
def Rec.OfFall (r : Roster) (n : String) (respawns : Prop) : Rec → Prop
  | .phase m _ after => (m = n ∨ m ∈ r.transitiveDependents n) ∧ after.live = false
  | .killed m _ => m = n ∨ m ∈ r.transitiveDependents n
  | .spawnChild m _ _ _ => m = n ∧ respawns
  | .completed _ | .gone _ _ | .status _ => False

/-- A cascade logs the dependents only. -/
theorem Cascaded.logs (h : Cascaded r n s s') (respawns : Prop) :
    s.Logs (Rec.OfFall r n respawns) s' := by
  refine ⟨_, h.log, ?_⟩
  intro e he
  obtain ⟨m, hm, he⟩ := List.mem_flatMap.mp he
  simp only [yieldLog] at he
  split_ifs at he with hlive hpid hbackoff
  · obtain rfl := List.mem_singleton.mp he
    exact ⟨Or.inr hm, rfl⟩
  · obtain rfl | he := List.mem_cons.mp he
    · exact Or.inr hm
    · obtain rfl := List.mem_singleton.mp he
      exact ⟨Or.inr hm, rfl⟩
  · obtain rfl := List.mem_singleton.mp he
    exact ⟨Or.inr hm, rfl⟩
  · cases he

/-- **What a fall adds to the log**: entries about the child and its dependents, no phase in
which they would be live, and no spawn but that of a respawn. -/
theorem Falls.logs {kind : ActionKind} (h : Falls r n kind s s') :
    s.Logs (Rec.OfFall r n (Respawns r s n kind)) s' := by
  have hcascade {t : Int} {s₁ : Procs}
      (h : Cascaded r n (s.setState n (enterBackoff (r.policy n) (s.child n).state t kind).2) s₁) :
      s.Logs (Rec.OfFall r n (Respawns r s n kind)) s₁ := by
    refine (s.setState_logs fun _ => ⟨Or.inl rfl, ?_⟩).trans (h.logs _)
    obtain h | h := enterBackoff_phase (r.policy n) (s.child n).state t kind <;> rw [h] <;> rfl
  cases h with
  | fatal _ _ h hsame | kill _ _ h hsame =>
    exact ((hcascade h).trans (Procs.kill_logs _ (Or.inl rfl))).trans_same hsame
  | wait _ _ h hsame => exact (hcascade h).trans_same hsame
  | respawn _ hbudget hbackoff h _ hsame =>
    exact ((hcascade h).trans (.cons (Procs.spawn_log ..)
      ⟨rfl, rfl, hbudget, hbackoff⟩)).trans_same hsame

end AmrFramework.Monitoring
