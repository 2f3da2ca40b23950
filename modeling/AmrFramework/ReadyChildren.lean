import AmrFramework.SupervisorDeps

/-!
# Ready children are brought up

A round of `try_bring_up` leaves its child not ready (`bringUp_spec`): either
it was not, or it is launched, and then it is no longer stopped. The rounds
follow the bring-up order, and a launch affects nobody but the child and its
transitive dependents, whose rounds are still to come. So after the last round
nobody is ready (`tryBringUp_ready`), and in particular after every tick
(`ready_brought_up`).

To be ready, all dependencies have to be running. A oneshot child that has
completed is stopped, and those that depend on it are not brought up for its
completion (`completed_not_awaited`).
-/

namespace AmrFramework.Monitoring

open DependencyOrder Runs

variable {r : Roster} {env : Env} {s s' : Procs} {n : String}

/-! ## One round

A round looks at one child: if it is ready it is launched, and by being launched it stops being
ready. -/

/-- Whether a child is ready is a matter of the child and its dependencies. -/
theorem ready_congr (hself : s'.child n = s.child n)
    (hdeps : ∀ d ∈ r.deps n, s'.child d = s.child d) : Ready r s' n ↔ Ready r s n := by
  have hall : depsAllRunning r s' n = true ↔ depsAllRunning r s n = true := by
    simp only [depsAllRunning, List.all_eq_true]
    refine forall₂_congr fun d hd => ?_
    rw [hdeps d hd]
  rw [Ready, Ready, hself, hall]

/-- A child that has been launched is not stopped. -/
theorem Launches.phase_ne (h : Launches r n s s') : (s'.child n).phase ≠ .stopped := by
  cases h with
  | up hpid hsame =>
    rw [hsame.child, launch_child, Function.update_self]
    exact Phase.noConfusion
  | stillborn hfalls =>
    intro hstopped
    obtain h | h := hfalls.phase <;> rw [h] at hstopped <;> cases hstopped

/-- A launch affects the child and its transitive dependents. -/
theorem Launches.frame (h : Launches r n s s') {m : String} (hm : m ≠ n)
    (hdep : m ∉ r.transitiveDependents n) : s'.child m = s.child m := by
  cases h with
  | up hpid hsame => rw [hsame.child, launch_child, Function.update_of_ne hm]
  | stillborn hfalls =>
    obtain ⟨t, hchild⟩ := hfalls.others
    rw [hchild m hm, if_neg hdep, launch_child, Function.update_of_ne hm]

/-- **A round** leaves its child not ready, and affects its transitive dependents
at most. -/
theorem bringUp_spec (r : Roster) (env : Env) (s : Procs) (n : String) :
    ∃ s', bringUp r env s n = some s' ∧ ¬ Ready r s' n ∧
      ∀ m, m ≠ n → m ∉ r.transitiveDependents n → s'.child m = s.child m := by
  obtain ⟨s', hs', ⟨hnot, rfl⟩ | ⟨-, hlaunch⟩⟩ := bringUp_cases r env s n
  · exact ⟨s', hs', hnot, fun _ _ _ => rfl⟩
  · exact ⟨s', hs', fun h => hlaunch.phase_ne h.1, fun _ hm hdep => hlaunch.frame hm hdep⟩

/-! ## All rounds

A round could make another child ready, or a launch that fails could stop one. Both concern only
transitive dependents, and in the bring-up order these come later. -/

/-- The rounds to come leave nobody ready, if the rounds so far have. By induction over the
rounds that are left; those of the past are not touched, as no dependent of a child comes before
it. -/
theorem bringUp_rounds (env : Env) {seen l : List String} (hfirst : DepsFirst r.deps seen l)
    (hnames : ∀ a ∈ l, a ∈ r.names) (hclosed : ∀ a ∈ seen, ∀ d ∈ r.deps a, d ∈ seen)
    (hseen : ∀ n ∈ seen, ¬ Ready r s n) :
    ∃ s', l.foldlM (bringUp r env) s = some s' ∧ ∀ n, n ∈ seen ∨ n ∈ l → ¬ Ready r s' n := by
  induction l generalizing seen s with
  | nil => exact ⟨s, rfl, fun n hn => hseen n (hn.resolve_right List.not_mem_nil)⟩
  | cons a l ih =>
    obtain ⟨ha, hdeps, hrest⟩ := hfirst
    obtain ⟨s₁, hs₁, hnot, hframe⟩ := bringUp_spec r env s a
    -- who has had a round does not depend on `a`
    have hkept {m : String} (hm : m ∈ seen) : s₁.child m = s.child m := by
      apply hframe m
      · rintro rfl
        exact ha hm
      · intro hdep
        obtain ⟨-, hpath⟩ := (r.mem_transitiveDependents (hnames a (List.mem_cons_self ..))).mp hdep
        exact ha (mem_of_transGen hclosed hpath hm)
    have hclosed' : ∀ b ∈ a :: seen, ∀ d ∈ r.deps b, d ∈ a :: seen := by
      intro b hb d hd
      obtain rfl | hb := List.mem_cons.mp hb
      · exact List.mem_cons_of_mem _ (hdeps d hd)
      · exact List.mem_cons_of_mem _ (hclosed b hb d hd)
    have hseen' : ∀ b ∈ a :: seen, ¬ Ready r s₁ b := by
      intro b hb
      obtain rfl | hb := List.mem_cons.mp hb
      · exact hnot
      · rw [ready_congr (hkept hb) fun d hd => hkept (hclosed b hb d hd)]
        exact hseen b hb
    obtain ⟨s', hs', hready⟩ := ih hrest (fun b hb => hnames b (List.mem_cons_of_mem _ hb))
      hclosed' hseen'
    refine ⟨s', by rw [List.foldlM_cons, hs₁]; exact hs', ?_⟩
    intro m hm
    apply hready m
    obtain hm | hm := hm
    · exact Or.inl (List.mem_cons_of_mem _ hm)
    · obtain rfl | hm := List.mem_cons.mp hm
      · exact Or.inl (List.mem_cons_self ..)
      · exact Or.inr hm

/-- **After `try_bring_up` nobody is ready.** One pass is enough, because the order is one of
bring-up: launching a child makes nobody before it ready. -/
theorem tryBringUp_ready (h : tryBringUp r env s = some s') (hn : n ∈ r.names) :
    ¬ Ready r s' n := by
  obtain ⟨t, ht, hready⟩ := bringUp_rounds (r := r) (s := s) env r.depsFirst
    (fun a ha => r.perm.mem_iff.mp ha) (fun a ha => by cases ha) (fun a ha => by cases ha)
  obtain rfl : t = s' := Option.some.inj (ht.symm.trans h)
  exact hready n (Or.inr (r.perm.mem_iff.mpr hn))

/-- A tick ends with `try_bring_up`. -/
theorem tick_bringUp (h : tick r env s = some s') : ∃ s₁, tryBringUp r env s₁ = some s' := by
  obtain ⟨s₁, -, hs₁⟩ := Option.bind_eq_some_iff.mp h
  exact ⟨s₁, hs₁⟩

/-! ## Runs

Every tick ends with `try_bring_up`, so what holds after it holds after every tick of every run. -/

/-- A child that is neither up nor done. -/
structure Procs.Idle (s : Procs) (n : String) : Prop where
  stopped : (s.child n).phase = .stopped
  undone : (s.child n).completed = false

/-- **Ready children are brought up**: after every tick, a child that is stopped and not
completed has a dependency that is not running. Nothing is assumed of the answers of the
operating system. -/
theorem ready_brought_up (r : Roster) (env : Env) {h : List Callback} {node : SupervisorNode}
    (hr : Run (NodeStep r env) (.configured r) (.tick :: h) node) (hn : n ∈ r.names)
    (hidle : node.procs.Idle n) :
    ∃ d ∈ r.deps n, (node.procs.child d).phase ≠ .running := by
  obtain _ | ⟨-, -, hstep⟩ := hr
  obtain ⟨procs, htick, hnode⟩ := Option.bind_eq_some_iff.mp hstep
  obtain rfl := Option.some.inj hnode
  obtain ⟨s₁, hbring⟩ := tick_bringUp htick
  by_contra hup
  push Not at hup
  apply tryBringUp_ready hbring hn
  refine ⟨hidle.stopped, hidle.undone, List.all_eq_true.mpr ?_⟩
  intro d hd
  simpa [r.dep_mem hn hd] using hup d hd

/-- Two children have given way to their dependency, which backs off. -/
theorem ready_brought_up_yielded :
    ∃ node, Run (NodeStep navStack (scripted [(16, .exited false)])) (.configured navStack)
        [.tick, .tick, .tick, .onActivate] node ∧ node.procs.Idle "nav" ∧
      ∃ d ∈ navStack.deps "nav", (node.procs.child d).phase ≠ .running := by
  obtain ⟨node, hr, hidle⟩ := Run.of_exec_any
    (advance_step navStack (scripted [(16, .exited false)])) (.configured navStack)
    [.onActivate, .tick, .tick, .tick]
    (fun node => (node.procs.child "nav").phase = .stopped ∧
      (node.procs.child "nav").completed = false) (by decide)
  obtain ⟨hstopped, hundone⟩ := of_decide_eq_true hidle
  exact ⟨node, hr, ⟨hstopped, hundone⟩,
    ready_brought_up navStack (scripted [(16, .exited false)]) hr (by decide)
      ⟨hstopped, hundone⟩⟩

/-- Running, or a oneshot child that has completed, and has not been invalidated since. -/
def Procs.Settled (r : Roster) (s : Procs) (d : String) : Prop :=
  (s.child d).phase = .running ∨
    ((r.decl d).spec.oneshot = true ∧ (s.child d).completed = true)

/-- A child that depends on a oneshot child. -/
def placement : Roster :=
  (loadChildrenFromParams
    [{ name := "bridge", cmd := ["/bin/bridge"], dependsOn := ["spawn"] },
      { name := "spawn", cmd := ["/bin/spawn"], oneshot := true }]).get rfl

/-- **The end of a oneshot child is not awaited**: "spawn" is done before the first
tick, and "bridge" is not brought up. -/
theorem completed_not_awaited :
    ¬ ∀ (r : Roster) (env : Env) (h : List Callback) (node : SupervisorNode),
      Run (NodeStep r env) (.configured r) (.tick :: h) node → ∀ n ∈ r.names,
        node.procs.Idle n → ¬ ∀ d ∈ r.deps n, node.procs.Settled r d := by
  obtain ⟨node, hr, hleft⟩ := Run.of_exec_any
    (advance_step placement (scripted [(3, .exited true)])) (.configured placement)
    [.onActivate, .tick, .tick]
    (fun node => (node.procs.child "bridge").phase = .stopped ∧
      (node.procs.child "bridge").completed = false ∧
      (node.procs.child "spawn").completed = true) (by decide)
  obtain ⟨hstopped, hundone, hdone⟩ := of_decide_eq_true hleft
  intro hclaim
  apply hclaim placement _ _ node hr "bridge" (by decide) ⟨hstopped, hundone⟩
  intro d hd
  obtain rfl := List.mem_singleton.mp (show d ∈ ["spawn"] from hd)
  exact Or.inr ⟨rfl, hdone⟩

end AmrFramework.Monitoring
