import AmrFramework.HealthGate

/-!
# Delivery of health reports

When does a report in which all nodes of a child are OK confirm it?

* `HealthSteps` handles one signal after the other, so a child that is
  signalled alive may have given way before its turn comes, or after it
  (`HealthSteps.delivered`, `HealthSteps.shaken`).
* `report_confirms_iff` — a starting child is confirmed by such a report exactly
  when its aggregate was not alive already, its nodes are routed to it, and no
  running child above it is lost by the same report.

After a quick restart the first condition fails, whatever is reported
(`report_not_delivered`).
-/

namespace AmrFramework.Monitoring

open DependencyOrder Runs

variable {r : Roster} {env : Env} {s s' : Procs} {n : String} {f : HealthFeed} {l : List Rec}

/-! ## One signal

A signal is handled by the state machine of one child, and what that does to the others is to
take down the dependents of a child that is lost. -/

/-- Neither starting nor running nor to be restarted: the phases in which no report can confirm
the child. -/
def Procs.Down (s : Procs) (n : String) : Prop :=
  (s.child n).phase = .stopped ∨ (s.child n).phase = .fatal

/-- Dependents of dependents are dependents. -/
theorem Roster.transitiveDependents_trans (r : Roster) {m k : String} (hk : k ∈ r.names)
    (hm : m ∈ r.transitiveDependents k) (hn : n ∈ r.transitiveDependents m) :
    n ∈ r.transitiveDependents k := by
  obtain ⟨hmnames, hkm⟩ := (r.mem_transitiveDependents hk).mp hm
  obtain ⟨hnnames, hmn⟩ := (r.mem_transitiveDependents hmnames).mp hn
  exact (r.mem_transitiveDependents hk).mpr ⟨hnnames, hkm.trans hmn⟩

/-- What a fall does to the phases of the other children. The dependents of the fallen child go
down with it; all others keep their phase. -/
theorem Falls.phase_other {k : String} {kind : ActionKind} (h : Falls r k kind s s')
    (hn : n ≠ k) :
    (n ∈ r.transitiveDependents k ∧ s'.Down n) ∨
      (n ∉ r.transitiveDependents k ∧ (s'.child n).phase = (s.child n).phase) := by
  obtain ⟨t, hchild⟩ := h.others
  rw [Procs.Down, hchild n hn]
  by_cases hdep : n ∈ r.transitiveDependents k
  · rw [if_pos hdep]
    exact Or.inl ⟨hdep, gaveWay_phase _ _⟩
  · rw [if_neg hdep]
    exact Or.inr ⟨hdep, rfl⟩

/-- **What one signal does to the phase of `n`**: it confirms `n`, or `n` is lost, or gives way
to a running child that is lost, or keeps its phase. Every lemma about a whole message goes by
these four cases. -/
theorem HealthStep.phase_cases {signal : String × Bool} (h : HealthStep r signal s s') (n : String) :
    (signal = (n, true) ∧ (s.child n).phase = .starting ∧ (s'.child n).phase = .running) ∨
      (signal = (n, false) ∧ (s.child n).phase = .running ∧
        ((s'.child n).phase = .backoff ∨ (s'.child n).phase = .fatal)) ∨
      (∃ k, signal = (k, false) ∧ k ∈ r.names ∧ (s.child k).phase = .running ∧
        n ∈ r.transitiveDependents k ∧ s'.Down n) ∨
      (s'.child n).phase = (s.child n).phase := by
  cases h with
  | @confirm _ _ k t hk hphase hsame =>
    by_cases hnk : n = k
    · subst hnk
      refine Or.inl ⟨rfl, hphase, ?_⟩
      rw [hsame.child, Procs.setState_child, Function.update_self]
      rfl
    · refine Or.inr (Or.inr (Or.inr ?_))
      rw [hsame.child, Procs.setState_child, Function.update_of_ne hnk]
  | @lost _ _ k hk hphase hfalls =>
    by_cases hnk : n = k
    · subst hnk
      exact Or.inr (Or.inl ⟨rfl, hphase, hfalls.phase⟩)
    · obtain ⟨hdep, hdown⟩ | ⟨-, hsame⟩ := hfalls.phase_other hnk
      · exact Or.inr (Or.inr (Or.inl ⟨k, rfl, hk, hphase, hdep, hdown⟩))
      · exact Or.inr (Or.inr (Or.inr hsame))
  | ignored hwhy hsame =>
    refine Or.inr (Or.inr (Or.inr ?_))
    rw [hsame.child]

/-! ## All signals of a message

By induction over the signals. A message has one signal for each child at most, so what a signal
leaves behind for a child stays, unless a child above it falls. -/

/-- What is down stays down: signals confirm a starting child or take a running one down, and a
child that is down is neither. -/
theorem HealthSteps.down {signals : List (String × Bool)} (h : HealthSteps r signals s s')
    (hn : s.Down n) : s'.Down n := by
  induction h with
  | done hsame =>
    rw [Procs.Down, hsame.child]
    exact hn
  | signal hstep _ ih =>
    apply ih
    obtain ⟨-, hp, -⟩ | ⟨-, hp, -⟩ | ⟨_, -, -, -, -, hdown⟩ | hsame := hstep.phase_cases n
    · obtain h | h := hn <;> cases h.symm.trans hp
    · obtain h | h := hn <;> cases h.symm.trans hp
    · exact hdown
    · rw [Procs.Down, hsame]
      exact hn

/-- No signal leads to `starting`. Only a spawn does, and spawns are for the tick. -/
theorem HealthSteps.not_starting {signals : List (String × Bool)} (h : HealthSteps r signals s s')
    (hn : (s.child n).phase ≠ .starting) : (s'.child n).phase ≠ .starting := by
  induction h with
  | done hsame =>
    rw [hsame.child]
    exact hn
  | signal hstep _ ih =>
    apply ih
    obtain ⟨-, -, hp⟩ | ⟨-, -, hp⟩ | ⟨_, -, -, -, -, hp⟩ | hp := hstep.phase_cases n
    · rw [hp]
      decide
    · obtain hp | hp := hp <;> rw [hp] <;> decide
    · obtain hp | hp := hp <;> rw [hp] <;> decide
    · rw [hp]
      exact hn

/-- Without its signal a child is not confirmed. Signals of other children can only take it down. -/
theorem HealthSteps.not_running {signals : List (String × Bool)} (h : HealthSteps r signals s s')
    (hsignal : (n, true) ∉ signals) (hn : (s.child n).phase ≠ .running) :
    (s'.child n).phase ≠ .running := by
  induction h with
  | done hsame =>
    rw [hsame.child]
    exact hn
  | signal hstep _ ih =>
    rw [List.mem_cons, not_or] at hsignal
    refine ih hsignal.2 ?_
    obtain ⟨heq, -, -⟩ | ⟨-, -, hp⟩ | ⟨_, -, -, -, -, hp⟩ | hp := hstep.phase_cases n
    · exact absurd heq.symm hsignal.1
    · obtain hp | hp := hp <;> rw [hp] <;> decide
    · obtain hp | hp := hp <;> rw [hp] <;> decide
    · rw [hp]
      exact hn

/-- A running child that is signalled lost takes its dependents down, and with them the
dependents of these. -/
theorem HealthStep.lost_down {m : String} (h : HealthStep r (m, false) s s') (hm : m ∈ r.names)
    (hrunning : (s.child m).phase = .running) (hn : n ∈ r.transitiveDependents m) : s'.Down n := by
  cases h with
  | lost _ _ hfalls =>
    have hnm : n ≠ m := fun he => not_mem_transitiveDependents r m (he ▸ hn)
    obtain ⟨-, hdown⟩ | ⟨hnot, -⟩ := hfalls.phase_other hnm
    · exact hdown
    · exact absurd hn hnot
  | ignored hwhy _ => exact absurd hrunning (hwhy hm)

/-- **A dependent of a running child that is lost ends up down**, wherever in
the message its own signal stands. -/
theorem HealthSteps.shaken {signals : List (String × Bool)} {m : String}
    (h : HealthSteps r signals s s') (hsignal : (m, false) ∈ signals) (hm : m ∈ r.names)
    (hrunning : (s.child m).phase = .running) (hn : n ∈ r.transitiveDependents m) : s'.Down n := by
  induction h with
  | done => cases hsignal
  | signal hstep hrest ih =>
    obtain rfl | hsignal := List.mem_cons.mp hsignal
    · exact hrest.down (hstep.lost_down hm hrunning hn)
    obtain ⟨-, hp, -⟩ | ⟨rfl, -, -⟩ | ⟨k, rfl, hk, hp, hdep, -⟩ | hsame := hstep.phase_cases m
    · cases hrunning.symm.trans hp
    · exact hrest.down (hstep.lost_down hm hrunning hn)
    · -- `m` gives way to `k`, and so does `n`
      exact hrest.down (hstep.lost_down hk hp (r.transitiveDependents_trans hk hdep hn))
    · exact ih hsignal (hsame.trans hrunning)

/-- No running child above `n` is about to be lost. This is what the rest of a message has to
satisfy for `n` to come through it. -/
def Unshaken (r : Roster) (signals : List (String × Bool)) (s : Procs) (n : String) : Prop :=
  ∀ k ∈ r.names, (k, false) ∈ signals → (s.child k).phase = .running →
    n ∉ r.transitiveDependents k

/-- One signal a child, so that stays true: no later signal is about the child that this one has
moved. -/
theorem HealthStep.unshaken {signal : String × Bool} {signals : List (String × Bool)}
    (h : HealthStep r signal s s') (hsingle : ((signal :: signals).map Prod.fst).Nodup)
    (hn : Unshaken r (signal :: signals) s n) : Unshaken r signals s' n := by
  rw [List.map_cons, List.nodup_cons] at hsingle
  intro k hk hlost hrunning
  obtain ⟨rfl, -, -⟩ | ⟨-, -, hp⟩ | ⟨_, -, -, -, -, hp⟩ | hsame := h.phase_cases k
  · exact absurd (List.mem_map_of_mem hlost) hsingle.1
  · obtain hp | hp := hp <;> cases hrunning.symm.trans hp
  · obtain hp | hp := hp <;> cases hrunning.symm.trans hp
  · exact hn k hk (List.mem_cons_of_mem _ hlost) (hsame.symm.trans hrunning)

/-- A running child that is not lost, and above which none is lost, keeps running. -/
theorem HealthSteps.stays_running {signals : List (String × Bool)}
    (h : HealthSteps r signals s s') (hsingle : (signals.map Prod.fst).Nodup)
    (hunshaken : Unshaken r signals s n) (hlost : (n, false) ∉ signals)
    (hrunning : (s.child n).phase = .running) : (s'.child n).phase = .running := by
  induction h with
  | done hsame =>
    rw [hsame.child]
    exact hrunning
  | signal hstep _ ih =>
    have hsingle' := (List.nodup_cons.mp (List.map_cons .. ▸ hsingle)).2
    refine ih hsingle' (hstep.unshaken hsingle hunshaken)
      (fun hmem => hlost (List.mem_cons_of_mem _ hmem)) ?_
    obtain ⟨-, -, hp⟩ | ⟨rfl, -, -⟩ | ⟨k, rfl, hk, hp, hdep, -⟩ | hsame := hstep.phase_cases n
    · exact hp
    · exact absurd (List.mem_cons_self ..) hlost
    · exact absurd hdep (hunshaken k hk (List.mem_cons_self ..) hp)
    · exact hsame.trans hrunning

/-- **A starting child that is signalled alive ends up running**, when no running child above it
is lost. Before its signal it stays `starting`, after it `running`. -/
theorem HealthSteps.delivered {signals : List (String × Bool)} (h : HealthSteps r signals s s')
    (hn : n ∈ r.names) (hsingle : (signals.map Prod.fst).Nodup)
    (hunshaken : Unshaken r signals s n) (hsignal : (n, true) ∈ signals)
    (hstarting : (s.child n).phase = .starting) : (s'.child n).phase = .running := by
  induction h with
  | done => cases hsignal
  | @signal s s₁ s' signal signals hstep hrest ih =>
    obtain ⟨hfirst, hsingle'⟩ := List.nodup_cons.mp (List.map_cons .. ▸ hsingle)
    have hunshaken' := hstep.unshaken hsingle hunshaken
    obtain rfl | hlater := List.mem_cons.mp hsignal
    · -- its turn
      have hlost : (n, false) ∉ signals := fun hmem =>
        hfirst (List.mem_map.mpr ⟨(n, false), hmem, rfl⟩)
      have hrunning : (s₁.child n).phase = .running := by
        cases hstep with
        | confirm _ _ hsame =>
          rw [hsame.child, Procs.setState_child, Function.update_self]
          rfl
        | ignored hwhy _ => exact absurd hstarting (hwhy hn)
      exact hrest.stays_running hsingle' hunshaken' hlost hrunning
    · apply ih hsingle' hunshaken' hlater
      obtain ⟨rfl, -, -⟩ | ⟨-, hp, -⟩ | ⟨k, rfl, hk, hp, hdep, -⟩ | hsame := hstep.phase_cases n
      · exact absurd (List.mem_map.mpr ⟨(n, true), hlater, rfl⟩) hfirst
      · cases hstarting.symm.trans hp
      · exact absurd hdep (hunshaken k hk (List.mem_cons_self ..) hp)
      · exact hsame.trans hstarting

/-! ## The report

The signals are flips: a child is signalled alive by a message when it was not alive before and
is after. A report in which everything is OK signals nothing for a child that was alive all
along. -/

/-- In the message, the last word on every one of the nodes is OK. Earlier entries of the same
message may say otherwise. -/
def AllOk (msg : List HealthStatus) (nodes : List String) : Prop :=
  ∀ a ∈ nodes, lastWord a msg.reverse = some .ok

instance (msg : List HealthStatus) (nodes : List String) : Decidable (AllOk msg nodes) :=
  inferInstanceAs (Decidable (∀ a ∈ nodes, _))

/-- The message takes the child `k` from alive to lost. One node is enough, and it is told from
the feed before the message and the message alone. -/
def TurnsBad (f : HealthFeed) (msg : List HealthStatus) (k : String) : Prop :=
  (f.views k).alive = true ∧ ∃ a ∈ (f.views k).nodes, lastWord a msg.reverse = some .bad

instance (f : HealthFeed) (msg : List HealthStatus) (k : String) : Decidable (TurnsBad f msg k) :=
  inferInstanceAs (Decidable (_ ∧ ∃ a ∈ (f.views k).nodes, _))

/-- What it takes for a report to confirm a starting child. The feed calls back on changes only,
so the aggregate must not be alive already, and the nodes must be routed to this child and to no
later one. -/
structure Deliverable (r : Roster) (node : SupervisorNode) (msg : List HealthStatus) (n : String) :
    Prop where
  /-- its aggregate is not alive already -/
  flips : (node.healthFeed.views n).alive = false
  /-- its nodes are routed to it -/
  routed : ∀ a ∈ (r.decl n).healthNodes, node.healthFeed.nodeToChild a = some n
  /-- no running child above it is lost by the same report -/
  unshaken : ∀ k ∈ r.names, (node.procs.child k).phase = .running →
    TurnsBad node.healthFeed msg k → n ∉ r.transitiveDependents k

/-- A message makes at most one signal for each child, since a view is compared once, after all
of the message has been read. -/
theorem signals_nodup (hf : f.Settled) (msg : List HealthStatus) :
    ((dispatch f msg).2.map Prod.fst).Nodup := by
  have hcallbacks := (dispatch_spec hf msg).callbacks
  have hlength (c : String) : (callbacksOf c (dispatch f msg).2).length ≤ 1 := by
    rw [hcallbacks]
    split
    · exact Nat.zero_le 1
    · exact Nat.le_refl 1
  generalize (dispatch f msg).2 = signals at hlength
  clear hcallbacks
  induction signals with
  | nil => exact List.nodup_nil
  | cons signal signals ih =>
    rw [List.map_cons, List.nodup_cons]
    refine ⟨?_, ih ?_⟩
    · intro hmem
      obtain ⟨⟨c, b⟩, hsignal, hc⟩ := List.mem_map.mp hmem
      have htwo := hlength signal.1
      have hrest : b ∈ callbacksOf signal.1 signals :=
        List.mem_filterMap.mpr ⟨(c, b), hsignal, by simp [← hc]⟩
      have hpos := List.length_pos_of_mem hrest
      simp only [callbacksOf, List.filterMap_cons, if_true, List.length_cons] at htwo hpos
      omega
    · intro c
      refine Nat.le_trans ?_ (hlength c)
      simp only [callbacksOf]
      rw [List.filterMap_cons]
      split
      · exact Nat.le_refl _
      · exact Nat.le_succ _

/-- An alive signal for `n`, when its nodes are all OK. It was not alive before, and its nodes
are routed to it. -/
theorem signalled_alive_iff (h : Reflects r f s.log) (hn : n ∈ r.names)
    (hgated : (r.decl n).healthGated = true) {msg : List HealthStatus}
    (hok : AllOk msg (r.decl n).healthNodes) :
    (n, true) ∈ (dispatch f msg).2 ↔ (f.views n).alive = false ∧
      ∀ a ∈ (r.decl n).healthNodes, f.nodeToChild a = some n := by
  have hindex := (dispatch_spec h.settled msg).index
  have halive : ((dispatch f msg).1.views n).alive = true ↔
      ∀ a ∈ (r.decl n).healthNodes, f.nodeToChild a = some n := by
    rw [(h.report msg).alive_iff hn hgated, hindex]
    refine forall₂_congr fun a ha => and_iff_left ?_
    rw [loggedWord_noteReport, hok a ha]
    rfl
  rw [mem_signals h.settled, eq_comm, halive, and_comm]
  apply and_congr_left'
  rw [ne_eq, eq_comm, Bool.not_eq_true]

/-- A lost signal for `k`. -/
theorem signalled_lost_iff (h : Reflects r f s.log) {k : String} (msg : List HealthStatus) :
    (k, false) ∈ (dispatch f msg).2 ↔ TurnsBad f msg k := by
  rw [mem_signals h.settled, and_comm]
  have hd := dispatch_spec h.settled msg
  have hold : false ≠ (f.views k).alive ↔ (f.views k).alive = true := by
    rw [ne_eq, eq_comm, Bool.not_eq_false]
  rw [hold]
  apply and_congr_right
  intro halive
  obtain ⟨hk, hgated⟩ := h.gated_of_alive halive
  have hbefore := (h.alive_iff hk hgated).mp halive
  have hafter := (h.report msg).alive_iff hk hgated
  rw [eq_comm, ← Bool.not_eq_true, hafter, h.nodes_of_gated hk hgated, not_forall₂]
  simp only [exists_prop]
  refine exists_congr fun a => and_congr_right ?_
  intro ha
  obtain ⟨hroute, hword⟩ := hbefore a ha
  rw [hd.index, hroute, loggedWord_noteReport, hword]
  obtain _ | v := lastWord a msg.reverse
  · simp
  · cases v <;> simp

/-- The child is not left in `starting`, and it is `running` if it was there. A child that has
gone on to another phase is none of the report's business. -/
structure Confirmed (r : Roster) (node node' : SupervisorNode) (n : String) : Prop where
  moved : (node'.procs.child n).phase ≠ .starting
  /-- it is running if it was starting -/
  running : (node.procs.child n).phase = .starting → (node'.procs.child n).phase = .running
  /-- the startup timeout passes it by -/
  no_timeout : ∀ env nowNs, tickTimeout r env nowNs n node'.procs = some node'.procs

/-- Only a starting child can be timed out; for the others this part of the tick does nothing. -/
theorem tickTimeout_not_starting (env : Env) (nowNs : Int) (h : (s.child n).phase ≠ .starting) :
    tickTimeout r env nowNs n s = some s :=
  if_neg fun hif => h hif.1

/-- **Exactly when a report in which all nodes of a child are OK confirms it**, in every
reachable state. The condition is on the state before the report and on the other entries of its
message. -/
theorem report_confirms_iff (r : Roster) (env : Env) {h : List Callback}
    {node node' : SupervisorNode} (hr : Run (NodeStep r env) (.configured r) h node)
    {msg : List HealthStatus} (hstep : NodeStep r env node (.healthReport msg) node')
    (hn : n ∈ r.names) (hgated : (r.decl n).healthGated = true)
    (hok : AllOk msg (r.decl n).healthNodes) :
    Confirmed r node node' n ↔
      ((node.procs.child n).phase = .starting → Deliverable r node msg n) := by
  have hreflects := run_reflects hr
  obtain ⟨msg', hmsg, -, -, hsteps⟩ : ∃ msg', Callback.healthReport msg = .healthReport msg' ∧
      node'.tickTimer = node.tickTimer ∧ node'.healthFeed = (dispatch node.healthFeed msg').1 ∧
      HealthSteps r (dispatch node.healthFeed msg').2 (node.procs.noteReport msg')
        node'.procs := by
    obtain ⟨hcb, -⟩ | ⟨hcb, -⟩ | ⟨hcb, -⟩ | hreport := nodeStep_cases hstep
    · cases hcb
    · cases hcb
    · cases hcb
    · exact hreport
  cases hmsg
  constructor
  · intro hconfirmed hstarting
    have hrunning := hconfirmed.running hstarting
    have hsignal : (n, true) ∈ (dispatch node.healthFeed msg).2 := by
      by_contra hnone
      refine hsteps.not_running hnone ?_ hrunning
      change (node.procs.child n).phase ≠ .running
      rw [hstarting]
      decide
    obtain ⟨hflips, hrouted⟩ := (signalled_alive_iff hreflects hn hgated hok).mp hsignal
    refine ⟨hflips, hrouted, ?_⟩
    intro k hk hkrunning hbad hdep
    have hlost := (signalled_lost_iff hreflects msg).mpr hbad
    obtain hp | hp := hsteps.shaken hlost hk hkrunning hdep <;> cases hp.symm.trans hrunning
  · intro hdeliverable
    by_cases hstarting : (node.procs.child n).phase = .starting
    · obtain ⟨hflips, hrouted, hunshaken⟩ := hdeliverable hstarting
      have hsignal := (signalled_alive_iff hreflects hn hgated hok).mpr ⟨hflips, hrouted⟩
      have hrunning : (node'.procs.child n).phase = .running := by
        refine hsteps.delivered hn (signals_nodup hreflects.settled msg) ?_ hsignal hstarting
        exact fun k hk hlost hkrunning =>
          hunshaken k hk hkrunning ((signalled_lost_iff hreflects msg).mp hlost)
      have hmoved : (node'.procs.child n).phase ≠ .starting := by
        rw [hrunning]
        decide
      exact ⟨hmoved, fun _ => hrunning, fun env nowNs => tickTimeout_not_starting env nowNs hmoved⟩
    · have hmoved := hsteps.not_starting hstarting
      exact ⟨hmoved, fun h => absurd h hstarting,
        fun env nowNs => tickTimeout_not_starting env nowNs hmoved⟩

/-- A child with one health node. -/
def oneNode : Roster :=
  (loadChildrenFromParams
    [{ name := "nav", cmd := ["/bin/nav"], healthNodes := ["planner"] }]).get rfl

/-- The first report after the bring-up confirms. -/
theorem report_confirms_first :
    ∃ node node', Run (NodeStep oneNode (scripted [])) (.configured oneNode) [.onActivate] node ∧
      NodeStep oneNode (scripted []) node (.healthReport [⟨"planner", "OK"⟩]) node' ∧
      (node.procs.child "nav").phase = .starting ∧ Confirmed oneNode node node' "nav" := by
  obtain ⟨node, hr, hnode⟩ := Run.of_exec_any (advance_step oneNode (scripted []))
    (.configured oneNode) [.onActivate]
    (fun node => (node.procs.child "nav").phase = .starting ∧
      (node.healthFeed.views "nav").alive = false ∧
      node.healthFeed.nodeToChild "planner" = some "nav") (by decide)
  obtain ⟨hstarting, hflips, hrouted⟩ := of_decide_eq_true hnode
  obtain ⟨node', hstep⟩ := nodeStep_total oneNode (scripted [])
    (show enabled node (.healthReport [⟨"planner", "OK"⟩]) from trivial)
  have halone : ∀ k ∈ oneNode.names, "nav" ∉ oneNode.transitiveDependents k := by decide
  refine ⟨node, node', hr, hstep, hstarting, (report_confirms_iff oneNode (scripted []) hr hstep
    (by decide) (by decide) (by decide)).mpr fun _ => ⟨hflips, ?_, ?_⟩⟩
  · intro a ha
    obtain rfl : a = "planner" := List.mem_singleton.mp ha
    exact hrouted
  · exact fun k hk _ _ => halone k hk

/-- Confirmed, crashed and restarted before the next report: the aggregate is
still alive, so that no report confirms the new process. -/
theorem report_not_delivered :
    ∃ node node', Run (NodeStep oneNode (scripted [(4, .exited false)])) (.configured oneNode)
        [.tick, .tick, .healthReport [⟨"planner", "OK"⟩], .onActivate] node ∧
      NodeStep oneNode (scripted [(4, .exited false)]) node (.healthReport [⟨"planner", "OK"⟩])
        node' ∧
      AllOk [⟨"planner", "OK"⟩] (oneNode.decl "nav").healthNodes ∧
      ¬ Confirmed oneNode node node' "nav" := by
  obtain ⟨node, hr, hnode⟩ := Run.of_exec_any
    (advance_step oneNode (scripted [(4, .exited false)])) (.configured oneNode)
    [.onActivate, .healthReport [⟨"planner", "OK"⟩], .tick, .tick]
    (fun node => (advance oneNode (scripted [(4, .exited false)]) node
      (.healthReport [⟨"planner", "OK"⟩])).any fun node' =>
        (node'.procs.child "nav").phase = .starting) (by decide)
  obtain ⟨node', hstep, hstarting⟩ := (Option.any_eq_true _ _).mp hnode
  exact ⟨node, node', hr, advance_step oneNode _ node _ node' hstep, by decide,
    fun h => h.moved (of_decide_eq_true hstarting)⟩

/-- Reports go on saying that all is well, until the startup timeout kills the
process. -/
example :
    (exec (advance oneNode (scripted [(4, .exited false)])) (.configured oneNode)
      ([.onActivate, .healthReport [⟨"planner", "OK"⟩], .tick, .tick] ++
        (List.replicate 12 [.healthReport [⟨"planner", "OK"⟩], .tick]).flatten)).any
      (fun node => .killed "nav" 109 ∈ node.procs.log) = true := by
  decide

end AmrFramework.Monitoring
